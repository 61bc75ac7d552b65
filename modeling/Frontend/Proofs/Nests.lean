import Frontend.Grammar.File
import Frontend.Proofs.Advances

/-!
What a parser takes from inside a declaration. `Nests d d' ahead p` speaks of the runs of `p` in
front of tokens that `ahead` holds of: no word that begins a declaration is taken, whatever becomes
of the run, and where it yields something, the tokens that it has taken lead from `d` open braces to
`d'`.
A look ahead that only counts braces may rely on that. Each way to put parsers together has a rule.
-/
namespace Frontend.Grammar

open Token (Kind)

/-- None of some tokens begins a declaration. -/
def Inner (tokens : List Token) : Prop := ∀ t ∈ tokens, beginsToplevel t.kind = false

/-- How many braces are open behind a kind. -/
def braceStep (depth : Nat) : Kind → Option Nat
  | .lbrace => some (depth + 1)
  | .rbrace => if depth = 0 then none else some (depth - 1)
  | _ => some depth

/-- How many braces are open behind some tokens. There is no answer if they close one that was open
before them. -/
def braceDepth : Nat → List Token → Option Nat
  | depth, [] => some depth
  | depth, t :: more => (braceStep depth t.kind).bind (braceDepth · more)

/-- Kinds that are neither braces nor begin a declaration or end a stream. -/
def isInner (k : Kind) : Bool :=
  !k.isTerminal && !beginsToplevel k && k != .lbrace && k != .rbrace

theorem Inner.append {first second : List Token} (h : Inner first) (h' : Inner second) :
    Inner (first ++ second) := by
  intro t mem
  obtain before | behind := List.mem_append.mp mem
  · exact h t before
  · exact h' t behind

theorem inner_nil : Inner [] := nofun

theorem inner_singleton {t : Token} (h : beginsToplevel t.kind = false) : Inner [t] := by
  intro u mem
  rwa [List.mem_singleton.mp mem]

section Braces

variable {d d' d'' : Nat} {k : Kind} {first second rest : List Token}

theorem braceDepth_append :
    braceDepth d (first ++ second) = (braceDepth d first).bind (braceDepth · second) := by
  induction first generalizing d with
  | nil => rfl
  | cons t first ih =>
    show (braceStep d t.kind).bind _ = ((braceStep d t.kind).bind _).bind _
    cases braceStep d t.kind with
    | none => rfl
    | some mid => exact ih

theorem braceDepth_singleton (t : Token) : braceDepth d [t] = braceStep d t.kind := by
  show (braceStep d t.kind).bind some = _
  exact Option.bind_fun_some _

theorem braceStep_of_isInner (inner : isInner k = true) : braceStep d k = some d := by
  cases k <;> first | rfl | cases inner

theorem going_of_isInner (inner : isInner k = true) : k.isTerminal = false := by
  cases k <;> first | rfl | cases inner

theorem beginsToplevel_of_isInner (inner : isInner k = true) : beginsToplevel k = false := by
  cases k <;> first | rfl | cases inner

/-- Braces that nest close none of those around them. -/
theorem bracesSize_append (nested : braceDepth d first = some d') :
    bracesSize (d + 1) (first ++ rest) = first.length + bracesSize (d' + 1) rest := by
  induction first generalizing d with
  | nil =>
    cases nested
    exact (Nat.zero_add _).symm
  | cons t first ih =>
    obtain ⟨mid, step, nested⟩ := Option.bind_eq_some_iff.mp nested
    have behind := ih nested
    rw [List.cons_append, bracesSize, List.length_cons]
    by_cases opening : t.kind = .lbrace
    · rw [opening] at step
      cases step
      rw [if_pos opening, behind]
      omega
    by_cases closing : t.kind = .rbrace
    · rw [closing, braceStep] at step
      split at step
      next => cases step
      next some =>
        cases step
        have enough : ¬ d + 1 ≤ 1 := by omega
        have same : d + 1 - 1 = d - 1 + 1 := by omega
        rw [if_neg opening, if_pos closing, if_neg enough, same, behind]
        omega
    · have same : mid = d := by
        unfold braceStep at step
        split at step
        · contradiction
        · contradiction
        · exact (Option.some.inj step).symm
      subst same
      rw [if_neg opening, if_neg closing, behind]
      omega

end Braces

/-- How a run ends that began at a cursor inside a declaration, with so many braces open. -/
def NestsTo {α : Type} (c : Cursor) (d d' : Nat) : EStateM.Result Fault Cursor α → Prop
  | .ok _ c' => ∃ taken, c.Passes taken c' ∧ Inner taken ∧ braceDepth d taken = some d'
  | .error _ c' => ∃ taken, c.Passes taken c' ∧ Inner taken

/-- The runs of a parser inside a declaration, in front of tokens of which something is known. -/
def Nests {α : Type} (d d' : Nat) (ahead : List Token → Prop) (p : Parser α) : Prop :=
  ∀ c : Cursor, c.Proper → ahead c.upcoming → NestsTo c d d' (p c)

/-- What was taken before a run was taken before its end. -/
theorem NestsTo.after {α : Type} {c mid : Cursor} {d d' d'' : Nat} {taken : List Token}
    {r : EStateM.Result Fault Cursor α} (h : NestsTo mid d' d'' r) (passes : c.Passes taken mid)
    (inner : Inner taken) (nested : braceDepth d taken = some d') : NestsTo c d d'' r := by
  cases r with
  | ok a c' =>
    obtain ⟨more, passes', inner', nested'⟩ := h
    refine ⟨taken ++ more, passes.trans passes', inner.append inner', ?_⟩
    rw [braceDepth_append, nested]
    exact nested'
  | error f c' =>
    obtain ⟨more, passes', inner'⟩ := h
    exact ⟨taken ++ more, passes.trans passes', inner.append inner'⟩

/-- Only looking ahead was done before a run. -/
theorem NestsTo.behind {α : Type} {c mid : Cursor} {d d' : Nat}
    {r : EStateM.Result Fault Cursor α} (h : NestsTo mid d d' r) (passes : c.Passes [] mid) :
    NestsTo c d d' r :=
  h.after passes inner_nil rfl

namespace Nests

open Frontend.Grammar.Parser

variable {α β σ ρ : Type} {d d' d'' : Nat} {ahead known : List Token → Prop} {p q : Parser α}
  {k : α → Parser β} {kind : Kind}

/-- What is known of the tokens may be forgotten. -/
theorem forget (h : Nests d d' known p) (weaker : ∀ tokens, ahead tokens → known tokens) :
    Nests d d' ahead p :=
  fun c proper here => h c proper (weaker _ here)

theorem pure {a : α} : Nests d d ahead (Pure.pure a) :=
  fun _ _ _ => ⟨[], .stay, inner_nil, rfl⟩

theorem fail {f : Fault} : Nests d d' ahead (Parser.fail f : Parser α) :=
  fun _ _ _ => ⟨[], .stay, inner_nil⟩

theorem bind (first : Nests d d' ahead p) (then_ : ∀ a, Nests d' d'' whatever (k a)) :
    Nests d d'' ahead (p >>= k) := by
  intro c proper here
  have ends := first c proper here
  simp only [Bind.bind, EStateM.bind]
  cases run : p c with
  | error f c' =>
    rw [run] at ends
    exact ends
  | ok a c' =>
    rw [run] at ends
    obtain ⟨taken, passes, inner, nested⟩ := ends
    exact (then_ a c' (passes.proper proper) trivial).after passes inner nested

theorem ite {cond : Prop} [Decidable cond] (yes : cond → Nests d d' ahead p)
    (no : ¬ cond → Nests d d' ahead q) : Nests d d' ahead (if cond then p else q) := by
  by_cases h : cond
  · rw [if_pos h]
    exact yes h
  · rw [if_neg h]
    exact no h

/-- One of two parsers, and then the same for what either yields. -/
theorem ite_bind {cond : Prop} [Decidable cond] (yes : Nests d d' ahead p)
    (no : Nests d d' ahead q) (then_ : ∀ a, Nests d' d'' whatever (k a)) :
    Nests d d'' ahead (if cond then p >>= k else q >>= k) :=
  ite (fun _ => yes.bind then_) fun _ => no.bind then_

/-- A kind is looked at, wherever it stands. -/
theorem kindAt_bind {i : Nat} {k : Kind → Parser β}
    (then_ : ∀ kind, Nests d d' (fun tokens => ahead tokens ∧ Showing i kind tokens) (k kind)) :
    Nests d d' ahead (kindAt i >>= k) := by
  intro c proper here
  have seen : Showing i ((c.receive i).token i).kind (c.receive i).upcoming :=
    (proper.receive i).showing i
  have here' : ahead (c.receive i).upcoming := by simpa using here
  exact (then_ _ (c.receive i) (proper.receive i) ⟨here', seen⟩).behind (.receive .stay i)

theorem kind_bind {k : Kind → Parser β}
    (then_ : ∀ kind, Nests d d' (fun tokens => ahead tokens ∧ Showing 0 kind tokens) (k kind)) :
    Nests d d' ahead (Parser.kind >>= k) :=
  kindAt_bind then_

/-- A look ahead takes nothing. -/
theorem looking {answer : Cursor → α} {reach : Cursor → Nat} :
    Nests d d ahead fun c => .ok (answer c) (c.receive (reach c)) :=
  fun _ _ _ => ⟨[], .receive .stay _, inner_nil, rfl⟩

theorem peekAt {i : Nat} : Nests d d ahead (peekAt i) := looking

theorem place : Nests d d ahead place :=
  fun _ _ _ => ⟨[], .stay, inner_nil, rfl⟩

theorem tell {e : Event} (other : e.received? = none) : Nests d d ahead (tell e) :=
  fun _ _ _ => ⟨[], .tell .stay e other, inner_nil, rfl⟩

theorem unexpected {what : String} : Nests d d' ahead (unexpected what : Parser α) :=
  peekAt.bind fun _ => fail

theorem unexpected_bind {what : String} : Nests d d' ahead (Parser.unexpected what >>= k) := by
  have fails : ∀ f, Parser.fail f >>= k = Parser.fail f := fun _ => rfl
  unfold Parser.unexpected
  rw [bind_assoc]
  apply peekAt.bind
  intro t
  rw [fails]
  exact fail

/-- A token is taken whose kind has been seen, and what is known of those behind it stays known. -/
theorem next_bind {k : Token → Parser β} (seen : ∀ tokens, ahead tokens → Showing 0 kind tokens)
    (going : kind.isTerminal = false) (other : beginsToplevel kind = false)
    (step : braceStep d kind = some d')
    (then_ : ∀ t, t.kind = kind → Nests d' d'' (fun tokens => ahead (t :: tokens)) (k t)) :
    Nests d d'' ahead (next >>= k) := by
  intro c proper here
  obtain ⟨t, rest, upcoming⟩ := List.exists_cons_of_ne_nil ((seen _ here).ne_nil going)
  have token : c.token 0 = t := by simp [Cursor.token, upcoming]
  have is_kind : t.kind = kind := (seen _ here).kind t (by rw [upcoming]; rfl)
  have goes : (c.token 0).kind.isTerminal = false := by rw [token, is_kind, going]
  have passes := Cursor.Passes.take .stay goes
  rw [token, List.nil_append] at passes
  have behind : ahead (t :: (c.receive 0).advance.upcoming) := by
    simpa [upcoming] using upcoming ▸ here
  have ends := then_ t is_kind _ (passes.proper proper) behind
  have inner : Inner [t] := inner_singleton (by rw [is_kind, other])
  have nested : braceDepth d [t] = some d' := by rw [braceDepth_singleton, is_kind, step]
  rw [← token] at ends
  simp only [Bind.bind, EStateM.bind, next, Cursor.token_receive]
  exact ends.after passes inner nested

theorem next (seen : ∀ tokens, ahead tokens → Showing 0 kind tokens)
    (inner : isInner kind = true) : Nests d d ahead next := by
  have taken : Nests d d ahead (Parser.next >>= Pure.pure) :=
    next_bind seen (going_of_isInner inner) (beginsToplevel_of_isInner inner)
      (braceStep_of_isInner inner) fun _ _ => pure
  rwa [bind_pure] at taken

/-- A token whose kind has been seen last. -/
theorem next_seen {ahead : List Token → Prop} (inner : isInner kind = true) :
    Nests d d (fun tokens => ahead tokens ∧ Showing 0 kind tokens) Parser.next :=
  next (fun _ here => here.2) inner

/-- Where the separators at the head end is told, and none is taken. -/
theorem separatorsEnd_bind {k : Nat → Parser β}
    (then_ : ∀ stop, Nests d d' (fun tokens => ahead tokens ∧
      stop = (tokens.takeWhile (·.kind.isSeparator)).length) (k stop)) :
    Nests d d' ahead (separatorsEnd 0 >>= k) := by
  intro c proper here
  let stop := 0 + ((c.upcoming.drop 0).takeWhile (·.kind.isSeparator)).length
  have stop_eq : stop = ((c.receive stop).upcoming.takeWhile (·.kind.isSeparator)).length := by
    simp [stop]
  have passes : c.Passes [] (c.receive stop) := .receive .stay stop
  exact (then_ stop (c.receive stop) (passes.proper proper) ⟨by simpa using here, stop_eq⟩).behind
    passes

/-- A token of a kind is taken, or there is none. -/
theorem eat_bind {k : Option Token → Parser β} (going : kind.isTerminal = false)
    (other : beginsToplevel kind = false) (step : braceStep d kind = some d')
    (found : ∀ t, Nests d' d'' (fun tokens => ahead (t :: tokens)) (k (some t)))
    (missing : Nests d d'' ahead (k none)) : Nests d d'' ahead (eat kind >>= k) := by
  unfold eat
  rw [bind_assoc]
  apply kind_bind
  intro seen
  by_cases same : seen = kind
  · subst same
    rw [if_pos rfl, bind_assoc]
    apply next_bind (fun _ here => here.2) going other step
    intro t _
    rw [pure_bind]
    exact (found t).forget fun _ here => here.1
  · rw [if_neg same, pure_bind]
    exact missing.forget fun _ here => here.1

theorem eat (inner : isInner kind = true) : Nests d d ahead (eat kind) := by
  have found : Nests d d ahead (Parser.eat kind >>= Pure.pure) :=
    eat_bind (going_of_isInner inner) (beginsToplevel_of_isInner inner)
      (braceStep_of_isInner inner) (fun _ => pure) pure
  rwa [bind_pure] at found

theorem ate (inner : isInner kind = true) : Nests d d ahead (ate kind) :=
  (eat inner).bind fun _ => pure

/-- Whether a token of a kind is taken decides how a parser goes on. -/
theorem ate_ite (inner : isInner kind = true) (yes : Nests d d' whatever p)
    (no : Nests d d' whatever q) :
    Nests d d' ahead (Parser.ate kind >>= fun found => if found then p else q) :=
  (ate inner).bind fun _ => ite (fun _ => yes) fun _ => no

/-- A token of a kind that must be there; what is known of the tokens behind it stays known. -/
theorem expect_bind {what : String} {k : Token → Parser β} (going : kind.isTerminal = false)
    (other : beginsToplevel kind = false) (step : braceStep d kind = some d')
    (then_ : ∀ t, Nests d' d'' (fun tokens => ahead (t :: tokens)) (k t)) :
    Nests d d'' ahead (expect kind what >>= k) := by
  unfold expect
  rw [bind_assoc]
  apply eat_bind going other step
  · intro t
    rw [pure_bind]
    exact then_ t
  · exact unexpected_bind

theorem expect {what : String} (inner : isInner kind = true) :
    Nests d d ahead (expect kind what) := by
  have found : Nests d d ahead (Parser.expect kind what >>= Pure.pure) :=
    expect_bind (going_of_isInner inner) (beginsToplevel_of_isInner inner)
      (braceStep_of_isInner inner) fun _ => pure
  rwa [bind_pure] at found

theorem expectIdent {what : String} : Nests d d ahead (expectIdent what) := expect rfl

/-- An opening brace. -/
theorem opening_bind {what : String} {k : Token → Parser β}
    (then_ : ∀ t, Nests (d + 1) d' whatever (k t)) :
    Nests d d' ahead (Parser.expect .lbrace what >>= k) :=
  expect_bind rfl rfl rfl fun t => (then_ t).forget fun _ _ => trivial

/-- A closing brace. -/
theorem closing_bind {what : String} {k : Token → Parser β}
    (then_ : ∀ t, Nests d d' whatever (k t)) :
    Nests (d + 1) d' ahead (Parser.expect .rbrace what >>= k) :=
  expect_bind rfl rfl rfl fun t => (then_ t).forget fun _ _ => trivial

/-- A repetition leaves as many braces open as each of its turns. -/
theorem iterate {turn : σ → Parser (Turn σ β)} {s : σ} (turns : ∀ s, Nests d d whatever (turn s)) :
    Nests d d ahead (Parser.iterate turn s) := by
  intro c proper here
  clear here
  induction s, c using Parser.iterate.induct turn with
  | case1 s c f c' failed =>
    have ends := turns s c proper trivial
    rw [failed] at ends
    rw [iterate_error failed]
    exact ends
  | case2 s c b c' last =>
    have ends := turns s c proper trivial
    rw [last] at ends
    rw [iterate_done last]
    exact ends
  | case3 s c s' c' again less ih =>
    have ends := turns s c proper trivial
    rw [again] at ends
    obtain ⟨taken, passes, inner, nested⟩ := ends
    rw [iterate_again again less]
    exact (ih (passes.proper proper)).after passes inner nested
  | case4 s c s' c' again stuck =>
    have ends := turns s c proper trivial
    rw [again] at ends
    obtain ⟨taken, passes, inner, -⟩ := ends
    rw [Parser.iterate, again]
    simp only [if_neg stuck]
    exact ⟨taken, passes, inner⟩

theorem skipWhile {kinds : Kind → Bool} (inner : ∀ k, kinds k = true → isInner k = true) :
    Nests d d ahead (skipWhile kinds) := by
  apply iterate
  intro _
  apply kind_bind
  intro k
  apply ite
  · exact fun here => (next_seen (inner k here)).bind fun _ => pure
  · exact fun _ => pure

theorem skipNewlines : Nests d d ahead skipNewlines := by
  apply skipWhile
  intro k newline
  rw [of_decide_eq_true newline]
  rfl

theorem isInner_of_isSeparator {k : Kind} (h : k.isSeparator = true) : isInner k = true := by
  cases k <;> first | rfl | cases h

theorem skipSeparators : Nests d d ahead skipSeparators :=
  skipWhile fun _ => isInner_of_isSeparator

/-- Behind separators that were seen to end at a place stands what was seen there. -/
theorem skipSeparators_bind {k : Unit → Parser β}
    (then_ : Nests d d' (fun tokens =>
      ∃ before, ahead before ∧ tokens = before.dropWhile (·.kind.isSeparator)) (k ())) :
    Nests d d' ahead (Parser.skipSeparators >>= k) := by
  intro c proper here
  obtain ⟨taken, c', run, passes, behind⟩ :=
    skipWhile_ok (fun _ => Advances.going_of_isSeparator) proper
  have skipped : Nests d d whatever Parser.skipSeparators := skipSeparators
  have ends := skipped c proper trivial
  have run' : Parser.skipSeparators c = .ok () c' := run
  rw [run'] at ends
  obtain ⟨taken', passes', inner, nested⟩ := ends
  simp only [Bind.bind, EStateM.bind, run']
  exact (then_ c' (passes.proper proper) ⟨_, here, behind⟩).after passes' inner nested

theorem commaList (item : Nests d d whatever p) : Nests d d ahead (commaList p) := by
  apply (item.forget fun _ _ => trivial).bind
  intro a
  apply iterate
  intro items
  apply ate_ite rfl
  · apply skipNewlines.bind
    intro _
    exact item.bind fun more => pure
  · exact pure

/-- What closed lists do behind each item: the list goes on behind a comma, or it ends. -/
theorem listed {items : σ} {ended : β} :
    Nests d d ahead (do
      Parser.skipNewlines
      if ← Parser.ate .comma then
        Parser.skipNewlines
        Pure.pure (Turn.again items)
      else Pure.pure (.done ended)) := by
  apply skipNewlines.bind
  intro _
  apply ate_ite rfl
  · exact skipNewlines.bind fun _ => pure
  · exact pure

theorem closedList {close : Kind} {item : List α → Parser α}
    (items : ∀ before, Nests d d whatever (item before)) :
    Nests d d ahead (closedList close item) := by
  apply skipNewlines.bind
  intro _
  apply iterate
  intro before
  apply kind_bind
  intro k
  apply ite
  · exact fun _ => pure
  · exact fun _ => ((items before).forget fun _ _ => trivial).bind fun _ => listed

theorem closedListWithRest {close : Kind} {rest : Parser ρ} (item : Nests d d whatever p)
    (last : Nests d d (Showing 0 .ellipsis) rest) :
    Nests d d ahead (closedListWithRest close p rest) := by
  apply skipNewlines.bind
  intro _
  apply iterate
  intro before
  apply kind_bind
  intro k
  apply ite
  · exact fun _ => pure
  intro _
  apply ite
  · rintro rfl
    apply (last.forget fun _ here => here.2).bind
    intro r
    exact skipNewlines.bind fun _ => pure
  · exact fun _ => (item.forget fun _ _ => trivial).bind fun _ => listed

theorem ofExcept {x : Except Fault α} : Nests d d ahead (ofExcept x) := by
  cases x with
  | error f => exact fail
  | ok a => exact pure

theorem forFewer {n : Nat} {p : (m : Nat) → m < n → Parser α}
    (h : ∀ m less, Nests d d whatever (p m less)) : Nests d d ahead (forFewer n p) := by
  intro c proper _
  unfold Grammar.forFewer
  by_cases short : c.remaining < n
  · rw [dif_pos short]
    exact h _ short c proper trivial
  · rw [dif_neg short]
    exact ⟨[], .stay, inner_nil⟩

theorem withRules {p : Rules → Parser α} (h : ∀ m, Nests d d whatever (p (below m))) :
    Nests d d ahead (withRules p) :=
  fun c proper _ => h c.remaining c proper trivial

end Nests

end Frontend.Grammar
