import Frontend.Proofs.Contexts
import Frontend.Proofs.Spelling

/-!
Streams with more line ends than others. `Loose x ts us` says that `us` is `ts` with line ends added
where a context allows it, separators repeated, and semicolons replaced by line ends, `x` being the
context in front of both. Both streams may also come to an edge, where the first one closes the
outermost bracket and the second one goes on with a comma; nothing is known behind an edge.
-/
namespace Frontend.Grammar

open Token (Kind)

/-- Something is open, and it is not the head of a function. -/
def Plain (stack : List Frame) : Prop := ∃ f outer, stack = f :: outer ∧ ∀ h, f ≠ .head h

theorem Plain.cons {f : Frame} {outer : List Frame} (other : ∀ h, f ≠ .head h) :
    Plain (f :: outer) :=
  ⟨f, outer, rfl, other⟩

theorem Plain.ne_nil {stack : List Frame} (plain : Plain stack) : stack ≠ [] := by
  obtain ⟨f, outer, rfl, -⟩ := plain
  nofun

namespace Context

variable {x y z : Context} {t : Token} {ts us : List Token} {k sep : Kind} {ph : Phase}

theorem step_plain (plain : Plain x.stack) : x.step t = x.take t.kind := by
  obtain ⟨f, stack, open_, other⟩ := plain
  unfold step
  split
  next h stack' eq =>
    rw [open_] at eq
    exact absurd (List.cons.inj eq).1 (other h)
  next => rfl

/-- A separator of a kind may be added in front of a token of a kind. -/
inductive Adds (x : Context) : Kind → Kind → Prop
  | blank {k : Kind} (blank : x.IsBlank k) (other : ¬ x.afterFirstPair k) : Adds x .newline k
  | line (phase : x.phase ≠ .case) : Adds x .newline .newline
  | separator {sep : Kind} (phase : x.phase ≠ .case) (closed : x.isOpen = false)
      (separator : sep.isSeparator = true) : Adds x sep .semicolon

theorem Adds.isSeparator (adds : x.Adds sep k) : sep.isSeparator = true := by
  cases adds with
  | blank | line => rfl
  | separator _ _ separator => exact separator

/-- Nothing is added behind `::`. -/
theorem Adds.ne_case (adds : x.Adds sep k) : x.phase ≠ .case := by
  cases adds with
  | blank blank =>
    obtain behind | ⟨behind, -⟩ | ⟨other, -⟩ := blank
    · rw [behind]
      nofun
    · rw [behind]
      nofun
    · exact other
  | line phase => exact phase
  | separator phase => exact phase

/-- In front of a token where no statement ends only line ends are added. -/
theorem Adds.eq_newline (adds : x.Adds sep k) (opened : x.isOpen = true) : sep = .newline := by
  cases adds with
  | blank | line => rfl
  | separator _ closed => simp [closed] at opened

/-- From one context to another one by tokens that it accepts. -/
inductive Leads : Context → List Token → Context → Prop
  | stay {x : Context} : Leads x [] x
  | take {x y : Context} {t : Token} {ts : List Token} (accepts : x.Accepts t.kind)
      (rest : Leads (x.step t) ts y) : Leads x (t :: ts) y

theorem Leads.trans (first : Leads x ts y) (second : Leads y us z) : Leads x (ts ++ us) z := by
  induction first with
  | stay => exact second
  | take accepts _ ih => exact .take accepts (ih second)

/-- The tokens behind a token lead on from the context behind it. -/
theorem Leads.tail (leads : Leads x (t :: ts) z) : Leads (x.step t) ts z := by
  cases leads with
  | take _ rest => exact rest

/-- The tokens behind some tokens lead on from where those lead to. -/
theorem Leads.drop (first : Leads x ts y) (all : Leads x (ts ++ us) z) : Leads y us z := by
  induction first with
  | stay => exact all
  | take _ _ ih => exact ih all.tail

/-- How the words may end behind some separators. -/
def Rests (x : Context) (ph : Phase) : Prop :=
  ph = x.phase ∨ x.phase.isOpen = false ∧ ph = .fresh

/-- The separators that are skipped in a context: all of them, or line ends where no statement
ends. -/
def Skips (x : Context) (kinds : Kind → Bool) : Prop :=
  x.phase ≠ .case ∧ (x.isOpen = false ∧ kinds = Kind.isSeparator ∨
    x.isOpen = true ∧ kinds = fun k => decide (k = .newline))

theorem Skips.isSeparator {kinds : Kind → Bool} (skips : x.Skips kinds) (skipped : kinds k = true) :
    k.isSeparator = true := by
  obtain ⟨-, ⟨-, rfl⟩ | ⟨-, rfl⟩⟩ := skips
  · exact skipped
  · rw [of_decide_eq_true skipped]
    rfl

theorem Skips.newline {kinds : Kind → Bool} (skips : x.Skips kinds) : kinds .newline = true := by
  obtain ⟨-, ⟨-, rfl⟩ | ⟨-, rfl⟩⟩ := skips <;> rfl

theorem Skips.accepts {kinds : Kind → Bool} (skips : x.Skips kinds) (skipped : kinds k = true) :
    x.Accepts k := by
  obtain ⟨phase, mode⟩ := skips
  refine ⟨?_, fun behind => absurd behind phase⟩
  rintro rfl
  obtain ⟨closed, -⟩ | ⟨-, rfl⟩ := mode
  · exact closed
  · cases skipped

theorem isOpen_fresh {stack : List Frame} (closed : ph.isOpen = false) :
    (⟨stack, .fresh⟩ : Context).isOpen = (⟨stack, ph⟩ : Context).isOpen := by
  simp only [isOpen, closed]
  rfl

/-- A separator that is skipped changes the phase only, and what is skipped behind it is the
same. -/
theorem Skips.take {kinds : Kind → Bool} (skips : x.Skips kinds) (skipped : kinds k = true) :
    ∃ ph, x.take k = ⟨x.stack, ph⟩ ∧ x.Rests ph ∧ ph.isEnd = false ∧
      (⟨x.stack, ph⟩ : Context).Skips kinds := by
  obtain ⟨stack, phase⟩ := x
  have separator := skips.isSeparator skipped
  obtain ⟨other, mode⟩ := skips
  obtain rfl | rfl : k = .newline ∨ k = .semicolon := by
    simpa [Kind.isSeparator] using separator
  · refine ⟨if phase.isOpen then phase else .fresh, rfl, ?_, ?_, ?_⟩
    · by_cases more : phase.isOpen = true
      · exact .inl (if_pos more)
      · exact .inr ⟨by simpa using more, if_neg more⟩
    · cases phase <;> rfl
    · by_cases more : phase.isOpen = true
      · rw [if_pos more]
        exact ⟨other, mode⟩
      · rw [if_neg more]
        rw [Skips, isOpen_fresh (by simpa using more)]
        exact ⟨nofun, mode⟩
  · obtain ⟨closed, rfl⟩ | ⟨-, rfl⟩ := mode
    · have quiet : phase.isOpen = false := (Bool.or_eq_false_iff.mp closed).2
      exact ⟨.fresh, rfl, .inr ⟨quiet, rfl⟩, rfl, nofun,
        .inl ⟨(isOpen_fresh quiet).trans closed, rfl⟩⟩
    · cases skipped

theorem Rests.eq_of_isOpen (rests : x.Rests ph) (opened : x.phase.isOpen = true) :
    ph = x.phase := by
  obtain rfl | ⟨closed, -⟩ := rests
  · rfl
  · simp [closed] at opened

theorem Rests.isQuiet (rests : x.Rests ph) (quiet : x.phase.isQuiet = true) :
    ph.isQuiet = true := by
  obtain rfl | ⟨-, rfl⟩ := rests
  · exact quiet
  · rfl

theorem Rests.begins (rests : x.Rests ph) (begins : x.phase.isEnd = false) : ¬ ph.isEnd = true := by
  obtain rfl | ⟨-, rfl⟩ := rests
  · simp [begins]
  · nofun

theorem Rests.trans {ph' : Phase} (first : x.Rests ph)
    (second : (⟨x.stack, ph⟩ : Context).Rests ph') :
    x.Rests ph' := by
  obtain rfl | ⟨closed, rfl⟩ := first
  · exact second
  · obtain rfl | ⟨-, rfl⟩ := second <;> exact .inr ⟨closed, rfl⟩

end Context

open Context

/-- The kind of the first of some tokens; that of the end if there is none. -/
def firstKind (tokens : List Token) : Kind := tokens.head?.elim .eof (·.kind)

/-- Streams of which the second one has line ends and separators that the first one has not. They
end together, or come to an edge at which `far` is left of the second one. -/
inductive Loose : List Token → Context → List Token → List Token → Prop
  | nil {x : Context} : Loose [] x [] []
  | token {far : List Token} {x : Context} {t u : Token} {ts us : List Token}
      (same : t.word = u.word) (rest : Loose far (x.step t) ts us) : Loose far x (t :: ts) (u :: us)
  | line {far : List Token} {x : Context} {t u : Token} {ts us : List Token}
      (closed : x.isOpen = false) (semicolon : t.kind = .semicolon) (newline : u.kind = .newline)
      (rest : Loose far (x.step t) ts us) : Loose far x (t :: ts) (u :: us)
  | extra {far : List Token} {x : Context} {u : Token} {ts us : List Token}
      (adds : x.Adds u.kind (firstKind ts)) (rest : Loose far x ts us) : Loose far x ts (u :: us)
  | edge {x : Context} {t u : Token} {ts us : List Token} {part : Part}
      (outermost : x.stack = [.square part]) (other : x.phase ≠ .param)
      (close : t.kind = .rbracket) (comma : u.kind = .comma) : Loose (u :: us) x (t :: ts) (u :: us)

/-- What the two streams may show next: the same; a line end that the first stream does not have;
or what stands at an edge. -/
inductive Apart (x : Context) : Kind → Kind → Prop
  | same {k : Kind} : Apart x k k
  | blank {k : Kind} (blank : x.IsBlank k) (other : ¬ x.afterFirstPair k) : Apart x k .newline
  | separator (closed : x.isOpen = false) : Apart x .semicolon .newline
  | edge {part : Part} (outermost : x.stack = [.square part]) (other : x.phase ≠ .param) :
      Apart x .rbracket .comma

variable {far : List Token} {x : Context} {t u : Token} {ts us : List Token} {k l : Kind}

namespace Loose

theorem kind_eq (same : t.word = u.word) : t.kind = u.kind := congrArg Prod.fst same

/-- A stream and itself. -/
theorem refl : ∀ (ts : List Token) {x : Context}, Loose [] x ts ts
  | [], _ => .nil
  | _ :: ts, _ => .token rfl (refl ts)

/-- Where both streams have the same words they go on with what is looser behind those. -/
theorem through {y : Context} {ts' us' : List Token} (leads : Leads x ts y)
    (same : ts.map Token.word = us.map Token.word) (loose : Loose far y ts' us') :
    Loose far x (ts ++ ts') (us ++ us') := by
  induction leads generalizing us with
  | stay =>
    rw [List.map_eq_nil_iff.mp same.symm]
    exact loose
  | take _ _ ih =>
    obtain ⟨u, us, rfl, word, rest⟩ := List.map_eq_cons_iff.mp same.symm
    exact .token word.symm (ih rest.symm loose)

/-- The edge is not behind the second stream. -/
theorem suffix (loose : Loose far x ts us) : far <:+ us := by
  induction loose with
  | nil | edge => exact List.suffix_refl _
  | token _ _ ih | line _ _ _ _ ih | extra _ _ ih => exact ih.trans (List.suffix_cons _ _)

/-- Without an edge the second stream has as many tokens as the first one, or more. -/
theorem length_le (loose : Loose [] x ts us) : ts.length ≤ us.length := by
  generalize none : [] = far at loose
  induction loose with
  | nil => exact Nat.le_refl _
  | token _ _ ih | line _ _ _ _ ih => exact Nat.succ_le_succ (ih none)
  | extra _ _ ih => exact Nat.le_succ_of_le (ih none)
  | edge => cases none

theorem apart (loose : Loose far x ts us) : Apart x (firstKind ts) (firstKind us) := by
  cases loose with
  | nil => exact .same
  | token same =>
    simp only [firstKind, List.head?_cons, Option.elim_some, kind_eq same]
    exact .same
  | line closed semicolon newline =>
    simp only [firstKind, List.head?_cons, Option.elim_some, semicolon, newline]
    exact .separator closed
  | extra adds =>
    rename_i u us rest
    have shown : firstKind (u :: us) = u.kind := rfl
    rw [shown]
    generalize u.kind = sep, firstKind ts = k at adds
    cases adds with
    | blank blank other => exact .blank blank other
    | line => exact .same
    | separator _ closed separator =>
      obtain rfl | rfl : sep = .newline ∨ sep = .semicolon := by
        simpa [Kind.isSeparator] using separator
      · exact .separator closed
      · exact .same
  | edge outermost other close comma =>
    simp only [firstKind, List.head?_cons, Option.elim_some, close, comma]
    exact .edge outermost other

/-- Where both streams show the same token, and no separator, they go on behind it. -/
theorem behind (loose : Loose far x (t :: ts) us) (shown : firstKind us = t.kind)
    (solid : t.kind.isSeparator = false) :
    ∃ u us', us = u :: us' ∧ t.word = u.word ∧ Loose far (x.step t) ts us' := by
  cases loose with
  | token same rest => exact ⟨_, _, rfl, same, rest⟩
  | line _ semicolon =>
    rw [semicolon] at solid
    cases solid
  | extra adds =>
    have shown : _ = t.kind := shown
    rw [← shown] at solid
    exact absurd adds.isSeparator (by simpa [firstKind] using solid)
  | edge _ _ close comma =>
    have shown : _ = t.kind := shown
    rw [close, firstKind, List.head?_cons, Option.elim_some, comma] at shown
    cases shown

/-- Streams behind the separators of a class at their heads. The second one has had as many of them
as the first one, or more. -/
structure Dropped (kinds : Kind → Bool) (far : List Token) (x : Context) (ts us : List Token)
    (ph : Phase) : Prop where
  rests : x.Rests ph
  loose : Loose far ⟨x.stack, ph⟩ (ts.dropWhile (kinds ·.kind)) (us.dropWhile (kinds ·.kind))
  leads : Leads x (ts.takeWhile (kinds ·.kind)) ⟨x.stack, ph⟩
  fewer : (ts.takeWhile (kinds ·.kind)).length ≤ (us.takeWhile (kinds ·.kind)).length
  stays : ph.isEnd = true → ts.dropWhile (kinds ·.kind) = ts

/-- Where neither stream shows a separator of the class, none is dropped. -/
theorem dropped_stay {kinds : Kind → Bool} (loose : Loose far x (t :: ts) (u :: us))
    (kept : kinds t.kind = false) (kept' : kinds u.kind = false) :
    ∃ ph, Dropped kinds far x (t :: ts) (u :: us) ph := by
  refine ⟨x.phase, .inl rfl, ?_, ?_, ?_, ?_⟩
  · simpa [kept, kept'] using loose
  · simpa [kept] using Leads.stay
  · simp [kept]
  · simp [kept]

/-- Both streams drop one more separator. -/
theorem dropped_cons {kinds : Kind → Bool} (plain : Plain x.stack) (skips : x.Skips kinds)
    (skipped : kinds t.kind = true) (skipped' : kinds u.kind = true)
    (rest : Plain (x.step t).stack → (x.step t).Skips kinds →
      ∃ ph, Dropped kinds far (x.step t) ts us ph) :
    ∃ ph, Dropped kinds far x (t :: ts) (u :: us) ph := by
  obtain ⟨ph, took, rests, begins, skips'⟩ := skips.take skipped
  have stepped : x.step t = ⟨x.stack, ph⟩ := (step_plain plain).trans took
  rw [stepped] at rest
  obtain ⟨ph', dropped⟩ := rest plain skips'
  refine ⟨ph', rests.trans dropped.rests, ?_, ?_, ?_, ?_⟩
  · simpa [skipped, skipped'] using dropped.loose
  · simpa [skipped] using Leads.take (skips.accepts skipped) (stepped ▸ dropped.leads)
  · simpa [skipped, skipped'] using dropped.fewer
  · exact fun ended => absurd ended (dropped.rests.begins begins)

/-- Behind separators that are skipped the streams go on. -/
theorem dropWhile {kinds : Kind → Bool} (loose : Loose far x ts us) (plain : Plain x.stack)
    (skips : x.Skips kinds) : ∃ ph, Dropped kinds far x ts us ph := by
  induction loose with
  | nil => exact ⟨_, .inl rfl, .nil, .stay, Nat.le_refl _, fun _ => rfl⟩
  | @token far x t u ts us same rest ih =>
    have same_kind := kind_eq same
    by_cases skipped : kinds t.kind = true
    · exact dropped_cons plain skips skipped (same_kind ▸ skipped) ih
    · have kept := Bool.eq_false_iff.mpr skipped
      exact dropped_stay (.token same rest) kept (same_kind ▸ kept)
  | @line far x t u ts us closed semicolon newline rest ih =>
    have all : kinds = Kind.isSeparator := by
      obtain ⟨-, ⟨-, all⟩ | ⟨opened, -⟩⟩ := skips
      · exact all
      · simp [closed] at opened
    have skipped : kinds t.kind = true := by rw [all, semicolon]; rfl
    exact dropped_cons plain skips skipped (newline ▸ skips.newline) ih
  | @extra far x u ts us adds rest ih =>
    obtain ⟨ph, dropped⟩ := ih plain skips
    have skipped : kinds u.kind = true := by
      obtain ⟨-, ⟨-, rfl⟩ | ⟨opened, rfl⟩⟩ := skips
      · exact adds.isSeparator
      · simp [adds.eq_newline opened]
    refine ⟨ph, dropped.rests, ?_, dropped.leads, ?_, dropped.stays⟩
    · simpa [skipped] using dropped.loose
    · simp only [List.takeWhile_cons, skipped, if_true, List.length_cons]
      exact Nat.le_succ_of_le dropped.fewer
  | @edge x t u ts us part outermost other close comma =>
    have kept : kinds .rbracket = false ∧ kinds .comma = false := by
      obtain ⟨-, ⟨-, rfl⟩ | ⟨-, rfl⟩⟩ := skips <;> exact ⟨rfl, rfl⟩
    exact dropped_stay (.edge outermost other close comma) (close ▸ kept.1) (comma ▸ kept.2)

/-- Where the body of a function begins its head is done. -/
theorem settle {h : Head} {stack : List Frame} {ph : Phase}
    (loose : Loose far ⟨.head h :: stack, ph⟩ ts us) (quiet : ph.isQuiet = true)
    (ends : ∀ t, ts.head? = some t → h.next t = none) :
    Loose far ⟨.block :: stack, .fresh⟩ ts us := by
  generalize there : (⟨.head h :: stack, ph⟩ : Context) = x at loose
  induction loose with
  | nil => exact .nil
  | @token far x t u ts us same rest =>
    subst there
    have stepped : (⟨.head h :: stack, ph⟩ : Context).step t =
        (⟨.block :: stack, .fresh⟩ : Context).step t := by
      simp [step, ends t rfl]
    exact .token same (stepped ▸ rest)
  | @line far x t u ts us closed semicolon newline rest =>
    subst there
    have stepped : (⟨.head h :: stack, ph⟩ : Context).step t =
        (⟨.block :: stack, .fresh⟩ : Context).step t := by
      simp [step, ends t rfl]
    exact .line rfl semicolon newline (stepped ▸ rest)
  | @extra far x u ts us adds rest ih =>
    refine .extra ?_ (ih ends there)
    subst there
    generalize u.kind = sep, firstKind ts = k at adds
    cases adds with
    | blank blank =>
      cases ph <;> simp_all [IsBlank, beforeComma, inBrackets, Frame.isBracket, Frame.closer?,
        Phase.isQuiet]
    | line => exact .line nofun
    | separator _ _ separator => exact .separator nofun rfl separator
  | edge outermost =>
    subst there
    cases outermost

end Loose

end Frontend.Grammar
