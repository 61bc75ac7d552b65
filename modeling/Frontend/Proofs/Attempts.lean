import Frontend.Proofs.AdvancingFiles
import Frontend.Proofs.NestingExprs
import Frontend.Proofs.Yields

/-!
The attempts at the declarations of a file. A file is read by one attempt after the other; one that
fails is followed by a recovery, which takes the token in front of which the attempt has stopped and
goes on to the next word that begins a declaration. Inside of an attempt no such word is taken but
its first token, so a word that begins a declaration is passed over by a recovery or not at all.
-/
namespace Frontend.Grammar

open Grammar.Parser
open Token (Kind)

section Nesting

variable {d : Nat} {ahead : List Token → Prop} {rules : Rules}

theorem nests_importEnd (parents : List String) : Nests d d ahead (importEnd parents) := by
  have name : ∀ {d}, Nests d d whatever (do
      let name ← expectIdent "imported name"
      skipNewlines
      pure name.text) := by
    intro d
    apply Nests.expectIdent.bind
    intro name
    apply Nests.skipNewlines.bind
    exact fun _ => .pure
  apply Nests.kind_bind
  intro k
  split
  · apply (Nests.next_seen rfl).bind
    exact fun _ => .pure
  · apply Nests.next_bind (fun _ here => here.2) rfl rfl rfl
    intro _ _
    apply Nests.skipNewlines.bind
    intro _
    apply Nests.bind (.commaList name)
    intro names
    apply Nests.closing_bind
    exact fun _ => .pure
  · apply Nests.expectIdent.bind
    intro name
    apply Nests.ate_ite rfl
    · exact .pure
    · exact .pure
  · exact .unexpected

/-- Behind separators that were counted stands what was seen there. -/
theorem showing_behind_separators {k : Kind} {stop : Nat} {before : List Token}
    (counted : stop = (before.takeWhile (·.kind.isSeparator)).length)
    (seen : Showing stop k before) : Showing 0 k (before.dropWhile (·.kind.isSeparator)) := by
  have parts : before.takeWhile (·.kind.isSeparator) ++ before.dropWhile (·.kind.isSeparator) =
      before := List.takeWhile_append_dropWhile
  constructor
  · intro going
    have inside := seen.some going
    rw [← parts, List.length_append] at inside
    omega
  · intro t found
    apply seen.kind t
    rw [← parts, counted, List.getElem?_append_right (Nat.le_refl _), Nat.sub_self]
    exact found

theorem nests_enumCases (nesting : rules.Nesting) : Nests d d ahead (enumCases rules) := by
  apply Nests.iterate
  intro cases
  apply Nests.separatorsEnd_bind
  intro stop
  apply Nests.kindAt_bind
  intro k
  apply Nests.ite
  · rintro rfl
    apply Nests.skipSeparators_bind
    have word : ∀ tokens, (∃ before, ((whatever before ∧
        stop = (before.takeWhile (·.kind.isSeparator)).length) ∧ Showing stop .caseWord before) ∧
        tokens = before.dropWhile (·.kind.isSeparator)) → Showing 0 .caseWord tokens := by
      rintro _ ⟨before, ⟨⟨-, counted⟩, seen⟩, rfl⟩
      exact showing_behind_separators counted seen
    apply (Nests.next word rfl).bind
    intro _
    apply Nests.expectIdent.bind
    intro name
    apply Nests.kind_bind
    intro k
    apply Nests.ite
    · intro _
      apply (nests_recordOrTupleType nesting).bind
      exact fun _ => .pure
    · exact fun _ => .pure
  · exact fun _ => .pure

theorem nests_typeAfterColon (nesting : rules.Nesting) :
    Nests d d ahead (typeAfterColon rules) := by
  apply Nests.ate_ite rfl
  · exact nesting.typeExpr.bind fun _ => .pure
  · exact .pure

theorem nests_param (nesting : rules.Nesting) : Nests d d ahead (param rules) := by
  apply Nests.expectIdent.bind
  intro name
  apply (nests_typeAfterColon nesting).bind
  exact fun _ => .pure

end Nesting

section Items

variable {α β : Type} {c c' : Cursor} {rules : Rules} {p : Parser α} {k : α → Parser β}

/-- How a run ends that may take a word that begins a declaration, but only as its first token.
Where such a word is in front it is taken. -/
def Opens (c : Cursor) : EStateM.Result Fault Cursor α → Prop
  | .ok _ c' | .error _ c' => ∃ taken, c.Passes taken c' ∧ Inner taken.tail ∧
    (beginsToplevel (c.token 0).kind = true → taken ≠ [])

theorem Inner.tail {tokens : List Token} (inner : Inner tokens) : Inner tokens.tail :=
  fun t mem => inner t (List.mem_of_mem_tail mem)

/-- What is passed behind the first token stays inside. -/
theorem Opens.after {mid : Cursor} {taken : List Token} {d d' : Nat}
    {r : EStateM.Result Fault Cursor β} (h : NestsTo mid d d' r) (passes : c.Passes taken mid)
    (inner : Inner taken.tail) (some : beginsToplevel (c.token 0).kind = true → taken ≠ []) :
    Opens c r := by
  have behind : ∀ more, Inner more → Inner (taken ++ more).tail := by
    intro more inner'
    cases taken with
    | nil => exact inner'.tail
    | cons t taken => exact inner.append inner'
  have kept : ∀ more, beginsToplevel (c.token 0).kind = true → taken ++ more ≠ [] :=
    fun more word none => some word (List.append_eq_nil_iff.mp none).1
  cases r with
  | ok b c' =>
    obtain ⟨more, passes', inner', -⟩ := h
    exact ⟨taken ++ more, passes.trans passes', behind more inner', kept more⟩
  | error f c' =>
    obtain ⟨more, passes', inner'⟩ := h
    exact ⟨taken ++ more, passes.trans passes', behind more inner', kept more⟩

theorem Opens.bind (proper : c.Proper) (first : Opens c (p c))
    (then_ : ∀ a, Nests 0 0 whatever (k a)) : Opens c ((p >>= k) c) := by
  simp only [Bind.bind, EStateM.bind]
  cases run : p c with
  | error f c' =>
    rw [run] at first
    exact first
  | ok a c' =>
    rw [run] at first
    obtain ⟨taken, passes, inner, some⟩ := first
    exact .after (then_ a c' (passes.proper proper) trivial) passes inner some

/-- The first token of a run, whatever it is. -/
theorem opens_next {k : Token → Parser β} (proper : c.Proper)
    (going : (c.token 0).kind.isTerminal = false) (then_ : ∀ t, Nests 0 0 whatever (k t)) :
    Opens c ((next >>= k) c) := by
  have passes : c.Passes [c.token 0] (c.receive 0).advance := Cursor.Passes.take .stay going
  apply Opens.bind proper ?_ then_
  exact ⟨[c.token 0], passes, inner_nil, nofun⟩

/-- Only looking ahead was done before a run. -/
theorem Opens.behind {r : EStateM.Result Fault Cursor α} (h : Opens (c.receive 0) r) :
    Opens c r := by
  have before : c.Passes [] (c.receive 0) := .receive .stay 0
  cases r <;>
  · obtain ⟨taken, passes, inner, some⟩ := h
    rw [Cursor.token_receive] at some
    exact ⟨taken, before.trans passes, inner, some⟩

theorem Opens.kind_bind {k : Kind → Parser β}
    (then_ : Opens (c.receive 0) (k (c.token 0).kind (c.receive 0))) :
    Opens c ((kind >>= k) c) := by
  simp only [Bind.bind, EStateM.bind, kind_run]
  exact then_.behind

theorem opens_importDecl (proper : c.Proper) (going : (c.token 0).kind.isTerminal = false) :
    Opens c (importDecl c) := by
  apply opens_next proper going
  intro word
  apply (Nests.ate rfl).bind
  intro relative
  apply Nests.expectIdent.bind
  intro first
  apply (Nests.expect rfl).bind
  intro _
  apply Nests.bind (.iterate nests_importEnd)
  intro found
  apply Nests.place.bind
  intro stop
  apply Nests.bind (.tell rfl)
  exact fun _ => .pure

theorem opens_typeDecl (nesting : rules.Nesting) (proper : c.Proper)
    (going : (c.token 0).kind.isTerminal = false) : Opens c (typeDecl rules c) := by
  apply opens_next proper going
  intro word
  apply Nests.expectIdent.bind
  intro name
  apply (nests_enumCases nesting).bind
  intro cases
  apply Nests.ite
  · intro _
    apply nesting.typeExpr.bind
    exact fun _ => .pure
  · intro _
    apply Nests.place.bind
    exact fun _ => .pure

theorem opens_functionDecl (nesting : rules.Nesting) (proper : c.Proper)
    (going : (c.token 0).kind.isTerminal = false) : Opens c (functionDecl rules c) := by
  have params : Nests 0 0 whatever (do
      let params ← closedList .rparen fun _ => param rules
      let _ ← expect .rparen "')' closing parameters"
      pure params) := by
    apply Nests.bind (.closedList fun _ => nests_param nesting)
    intro params
    apply (Nests.expect rfl).bind
    exact fun _ => .pure
  apply opens_next proper going
  intro word
  apply Nests.expectIdent.bind
  intro name
  apply Nests.bind (.ate rfl)
  intro found
  apply params.ite_bind .pure
  intro params
  apply (nests_typeAfterColon nesting).bind
  intro result
  apply (nests_block nesting).bind
  intro body
  apply (Nests.expect rfl).bind
  intro close
  apply Nests.bind (.tell rfl)
  exact fun _ => .pure

theorem opens_toplevel (nesting : rules.Nesting) (proper : c.Proper) :
    Opens c (toplevel rules c) := by
  have proper' := proper.receive 0
  apply Opens.kind_bind
  generalize word : (c.token 0).kind = kind
  rw [← Cursor.token_receive c 0 0] at word
  split
  next =>
    apply Opens.bind proper' (opens_importDecl proper' (by rw [word]; rfl))
    exact fun _ => .pure
  next => exact opens_typeDecl nesting proper' (by rw [word]; rfl)
  next =>
    apply Opens.bind proper' (opens_functionDecl nesting proper' (by rw [word]; rfl))
    exact fun _ => .pure
  next no_import no_type no_func =>
    refine ⟨[], .receive .stay 0, inner_nil, fun begins => ?_⟩
    simp only [word, beginsToplevel, Bool.or_eq_true, decide_eq_true_eq] at begins
    obtain (func | type) | import_ := begins
    · exact absurd func no_func
    · exact absurd type no_type
    · exact absurd import_ no_import

/-- An attempt at a declaration takes a word that begins one as its first token only, and takes it
if it is there. -/
theorem opens_toplevelItem (nesting : rules.Nesting) (proper : c.Proper) :
    Opens c (toplevelItem rules c) := by
  apply Opens.bind proper (opens_toplevel nesting proper)
  intro decl
  apply Nests.kind_bind
  intro k
  apply Nests.ite
  · exact fun _ => .pure
  · exact fun _ => .unexpected

end Items

/-- An attempt at a declaration: where it begins, what comes of it, and where it ends. -/
structure Attempt where
  begins : Cursor
  found : Except Fault Toplevel
  ends : Cursor

namespace Attempt

/-- The declaration that an attempt has read. -/
def decl? (a : Attempt) : Option Toplevel :=
  match a.found with
  | .ok decl => some decl
  | .error _ => none

/-- The fault that an attempt has failed with. -/
def fault? (a : Attempt) : Option Fault :=
  match a.found with
  | .ok _ => none
  | .error f => some f

/-- The attempt that is made at a point of a file, behind the separators there, and where the file
is read on: where the attempt ends, or behind the recovery from its fault. -/
inductive Made : Cursor → Attempt → Cursor → Prop
  | read {c mid ends : Cursor} {decl : Toplevel} (skipped : skipSeparators c = .ok () mid)
      (going : (mid.token 0).kind.isTerminal = false)
      (run : toplevelItem full (mid.receive 0) = .ok decl ends) :
      Made c ⟨mid.receive 0, .ok decl, ends⟩ ends
  | fail {c mid ends c' : Cursor} {f : Fault} (skipped : skipSeparators c = .ok () mid)
      (going : (mid.token 0).kind.isTerminal = false)
      (run : toplevelItem full (mid.receive 0) = .error f ends)
      (recovered : recover (ends.tell (.rejected f)) = .ok () c') :
      Made c ⟨mid.receive 0, .error f, ends⟩ c'

end Attempt

/-- The attempts from a point of a file up to its end, in order. -/
inductive Attempts : Cursor → List Attempt → Cursor → Prop
  | finish {c mid : Cursor} (skipped : skipSeparators c = .ok () mid)
      (ended : (mid.token 0).kind.isTerminal = true) : Attempts c [] (mid.receive 0)
  | next {c mid c' : Cursor} {a : Attempt} {more : List Attempt} (made : a.Made c mid)
      (rest : Attempts mid more c') : Attempts c (a :: more) c'

/-- What has been read of a file after some more attempts. -/
def Harvest.after (h : Harvest) (made : List Attempt) : Harvest where
  decls := (made.filterMap Attempt.decl?).reverse ++ h.decls
  faults := (made.filterMap Attempt.fault?).reverse ++ h.faults

section Attempts

variable {c mid c' : Cursor} {a : Attempt} {made : List Attempt} {h : Harvest}

theorem Harvest.after_cons (h : Harvest) (a : Attempt) (more : List Attempt) :
    h.after (a :: more) = (h.after [a]).after more := by
  obtain ⟨begins, found, ends⟩ := a
  cases found <;> simp [Harvest.after, Attempt.decl?, Attempt.fault?, List.filterMap_cons]

/-- An attempt is a turn of the reading of a file. -/
theorem Attempt.Made.fileStep (made : a.Made c c') :
    fileStep full h c = .ok (.again (h.after [a])) c' := by
  cases made with
  | read skipped going run =>
    simp [Grammar.fileStep, attempt, skipped, kind, kindAt, peekAt, bind, EStateM.bind, pure,
      EStateM.pure, going, run, Harvest.after, Attempt.decl?, Attempt.fault?]
  | fail skipped going run recovered =>
    simp [Grammar.fileStep, attempt, skipped, kind, kindAt, peekAt, Parser.tell, bind,
      EStateM.bind, pure, EStateM.pure, going, run, recovered, Harvest.after, Attempt.decl?,
      Attempt.fault?]

/-- An attempt that has come to a fault. -/
def Attempt.Failed (a : Attempt) : Prop := ∃ f, a.found = .error f

/-- What is taken from one attempt to the next one: separators, what the attempt takes, and what the
recovery skips. A word that begins a declaration is the first token of what is taken or skipped, and
where it is in front of the attempt it is taken. -/
structure Attempt.Spans (c : Cursor) (a : Attempt) (c' : Cursor)
    (before taken skipped : List Token) : Prop where
  start : c.Passes before a.begins
  middle : a.begins.Passes taken a.ends
  stop : a.ends.Passes skipped c'
  separators : Inner before
  inside : Inner taken.tail
  behind : Inner skipped.tail
  first : beginsToplevel (a.begins.token 0).kind = true → taken ≠ []
  some : taken ++ skipped ≠ []
  read : ¬ a.Failed → skipped = []
  failed : a.Failed → skipped = [] → a.ends.upcoming = []

/-- No word that begins a declaration is skipped among separators. -/
theorem separators_passed (proper : c.Proper) (skipped : skipSeparators c = .ok () mid) :
    ∃ before, c.Passes before mid ∧ Inner before := by
  have nests : Nests 0 0 whatever skipSeparators := .skipSeparators
  have ends := nests c proper trivial
  rw [skipped] at ends
  obtain ⟨before, passes, inner, -⟩ := ends
  exact ⟨before, passes, inner⟩

/-- In front of an attempt some separators are taken, and there is a token that it begins with. -/
theorem begins_behind_separators (proper : c.Proper) (skipped : skipSeparators c = .ok () mid)
    (going : (mid.token 0).kind.isTerminal = false) : ∃ before,
      c.Passes before (mid.receive 0) ∧ Inner before ∧ (mid.receive 0).upcoming ≠ [] := by
  obtain ⟨before, passes, inner⟩ := separators_passed proper skipped
  refine ⟨before, passes.receive 0, inner, fun none => ?_⟩
  have ended := ((passes.receive 0).proper proper).isTerminal_token.mpr none
  rw [Cursor.token_receive, going] at ended
  cases ended

theorem Attempt.Made.spans (made : a.Made c c') (proper : c.Proper) :
    ∃ before taken skipped, a.Spans c c' before taken skipped := by
  cases made with
  | read skipped going run =>
    obtain ⟨before, start, separators, some⟩ := begins_behind_separators proper skipped going
    have proper' := start.proper proper
    have begins := opens_toplevelItem nesting_full proper'
    have goes := Advances.goes (fun n => advances_toplevelItem (advancing_full n)) proper'
    rw [run] at begins goes
    obtain ⟨taken, middle, inside, first⟩ := begins
    obtain ⟨taken', middle', some'⟩ := goes
    have size := middle.remaining proper'
    have size' := middle'.remaining proper'
    have positive := List.length_pos_iff.mpr (some' trivial)
    have nonempty : taken ≠ [] := List.length_pos_iff.mp (by omega)
    exact ⟨before, taken, [], start, middle, .stay, separators, inside, inner_nil, first,
      by simpa using nonempty, fun _ => rfl, fun ⟨_, failed⟩ => nomatch failed⟩
  | @fail mid ends _ f skipped going run recovered =>
    obtain ⟨before, start, separators, some⟩ := begins_behind_separators proper skipped going
    have proper' := start.proper proper
    have begins := opens_toplevelItem nesting_full proper'
    rw [run] at begins
    obtain ⟨taken, middle, inside, first⟩ := begins
    have told : ends.Passes [] (ends.tell (.rejected f)) := .tell .stay _ rfl
    obtain ⟨skipped, c'', run', stop, behind, ended⟩ :=
      recover_skips (told.proper (middle.proper proper'))
    rw [recovered] at run'
    cases run'
    refine ⟨before, taken, skipped, start, middle, told.trans stop, separators, inside, behind,
      first, ?_, fun read => absurd ⟨f, rfl⟩ read, fun _ => ended⟩
    intro none
    obtain ⟨rfl, rfl⟩ := List.append_eq_nil_iff.mp none
    rw [middle.upcoming proper'] at some
    exact some (ended rfl)

/-- What is passed from one attempt to the next one, some token at least. -/
theorem Attempt.Made.passes (made : a.Made c c') (proper : c.Proper) :
    ∃ taken, c.Passes taken c' ∧ taken ≠ [] := by
  obtain ⟨before, taken, skipped, spans⟩ := made.spans proper
  refine ⟨before ++ (taken ++ skipped), spans.start.trans (spans.middle.trans spans.stop), ?_⟩
  exact List.append_ne_nil_of_right_ne_nil _ spans.some

/-- Attempts are made up to the end of every stream. -/
theorem exists_attempts (proper : c.Proper) : ∃ made c', Attempts c made c' := by
  -- An attempt takes some token, if only by the recovery behind it, so fewer are left.
  generalize size : c.remaining = n
  induction n using Nat.strongRecOn generalizing c with
  | ind n ih =>
    obtain ⟨separators, mid, skipped, passes, -⟩ :=
      skipWhile_ok (fun _ => Advances.going_of_isSeparator) proper
    have skipped : skipSeparators c = .ok () mid := skipped
    by_cases ended : (mid.token 0).kind.isTerminal = true
    · exact ⟨[], _, .finish skipped ended⟩
    have going : (mid.token 0).kind.isTerminal = false := Bool.eq_false_iff.mpr ended
    have tried : ∃ a c', Attempt.Made c a c' := by
      have proper' := (passes.receive 0).proper proper
      have begins := opens_toplevelItem nesting_full proper'
      cases run : toplevelItem full (mid.receive 0) with
      | ok decl c' => exact ⟨_, _, .read skipped going run⟩
      | error f ends =>
        rw [run] at begins
        obtain ⟨taken, middle, -⟩ := begins
        obtain ⟨_, c', recovered, -⟩ := recover_skips ((middle.proper proper').tell (.rejected f))
        exact ⟨_, c', .fail skipped going run recovered⟩
    obtain ⟨a, c', made⟩ := tried
    obtain ⟨taken, passes', some⟩ := made.passes proper
    have left := passes'.remaining proper
    have positive := List.length_pos_iff.mpr some
    obtain ⟨more, last, rest⟩ := ih c'.remaining (by omega) (passes'.proper proper) rfl
    exact ⟨a :: more, last, .next made rest⟩

theorem Attempts.iterate (attempts : Attempts c made c') (proper : c.Proper) :
    iterate (fileStep full) h c = endFault (h.after made) c' := by
  induction attempts generalizing h with
  | @finish c mid skipped ended =>
    have same : h.after [] = h := rfl
    have turn : fileStep full h c = (endFault h >>= fun h => pure (.done h)) (mid.receive 0) := by
      simp [fileStep, skipped, kind, kindAt, peekAt, bind, EStateM.bind, pure, EStateM.pure, ended]
    rw [same]
    cases last : endFault h (mid.receive 0) with
    | ok h' c' => exact iterate_done (turn.trans (bind_eq_ok.mpr ⟨h', c', last, rfl⟩))
    | error f c' =>
      apply iterate_error
      rw [turn]
      simp [Bind.bind, EStateM.bind, last]
  | next made rest ih =>
    obtain ⟨taken, passes, some⟩ := made.passes proper
    have left := passes.remaining proper
    have positive := List.length_pos_iff.mpr some
    rw [iterate_again made.fileStep (by omega), ih (passes.proper proper)]
    rw [← Harvest.after_cons]

end Attempts

section Words

variable {c c' : Cursor} {a : Attempt} {made : List Attempt} {w : Token} {after : List Token}

/-- A word that begins a declaration stands behind some tokens, or is the first of them. -/
theorem suffix_cases {front rest : List Token} (inner : Inner front.tail)
    (word : beginsToplevel w.kind = true) (suffix : w :: after <:+ front ++ rest) :
    w :: after <:+ rest ∨ front ≠ [] ∧ front ++ rest = w :: after := by
  obtain ⟨pre, parts⟩ := suffix
  obtain ⟨inside, rfl, rest_eq⟩ | ⟨outside, rfl, rfl⟩ := List.append_eq_append_iff.mp parts
  · cases inside with
    | nil => exact .inl ⟨[], rest_eq⟩
    | cons t inside =>
      obtain ⟨rfl, rest_eq⟩ := List.cons_eq_cons.mp rest_eq
      cases pre with
      | nil => exact .inr ⟨List.cons_ne_nil _ _, by rw [rest_eq]; rfl⟩
      | cons p pre =>
        have none := inner w (List.mem_append_right _ List.mem_cons_self)
        rw [word] at none
        cases none
  · exact .inl ⟨outside, rfl⟩

/-- No word that begins a declaration is among separators. -/
theorem suffix_inner {front rest : List Token} (inner : Inner front)
    (word : beginsToplevel w.kind = true) (suffix : w :: after <:+ front ++ rest) :
    w :: after <:+ rest := by
  obtain behind | ⟨some, whole⟩ := suffix_cases inner.tail word suffix
  · exact behind
  · obtain ⟨t, front, rfl⟩ := List.exists_cons_of_ne_nil some
    obtain ⟨rfl, -⟩ := List.cons_eq_cons.mp whole
    have none := inner t List.mem_cons_self
    rw [word] at none
    cases none

/-- A word that begins a declaration is left for the attempts behind one, or this one begins with it
or has stopped in front of it with a fault, but not both. -/
theorem Attempt.Made.word (attempt : a.Made c c') (proper : c.Proper)
    (word : beginsToplevel w.kind = true) (suffix : w :: after <:+ c.upcoming) :
    w :: after <:+ c'.upcoming ∧ a.begins.upcoming ≠ w :: after ∧
        ¬ (a.Failed ∧ a.ends.upcoming = w :: after) ∨
      ¬ w :: after <:+ c'.upcoming ∧
        (a.begins.upcoming = w :: after ↔ ¬ (a.Failed ∧ a.ends.upcoming = w :: after)) := by
  obtain ⟨before, taken, skipped, spans⟩ := attempt.spans proper
  have proper₁ := spans.start.proper proper
  have middle := spans.middle.upcoming proper₁
  have stop := spans.stop.upcoming (spans.middle.proper proper₁)
  have size := congrArg List.length middle
  have size' := congrArg List.length stop
  have some := List.length_pos_iff.mpr spans.some
  simp only [List.length_append] at size size' some
  rw [spans.start.upcoming proper] at suffix
  have here := suffix_inner spans.separators word suffix
  rw [middle] at here
  -- The word is the first token that the attempt takes, or the first one that the recovery skips,
  -- or it stands behind both. The lengths tell which of the two points it stands at.
  obtain here | ⟨nonempty, whole⟩ := suffix_cases spans.inside word here
  · rw [stop] at here
    obtain here | ⟨nonempty, whole⟩ := suffix_cases spans.behind word here
    · have short := here.length_le
      refine .inl ⟨here, fun same => ?_, fun ⟨failed, same⟩ => ?_⟩
      · rw [same] at size
        omega
      · by_cases none : skipped = []
        · rw [spans.failed failed none] at same
          cases same
        · have positive := List.length_pos_iff.mpr none
          rw [same] at size'
          omega
    · rw [← stop] at whole
      have positive := List.length_pos_iff.mpr nonempty
      have failed : a.Failed := Classical.byContradiction fun read => nonempty (spans.read read)
      refine .inr ⟨fun behind => ?_, fun same => ?_, fun other => absurd ⟨failed, whole⟩ other⟩
      · have short := behind.length_le
        rw [← whole] at short
        omega
      · have first : (a.begins.token 0).kind = w.kind := by
          rw [Cursor.token, same]
          rfl
        have positive' := List.length_pos_iff.mpr (spans.first (first ▸ word))
        rw [same, whole] at size
        omega
  · rw [← middle] at whole
    have positive := List.length_pos_iff.mpr nonempty
    refine .inr ⟨fun behind => ?_, fun _ ⟨_, same⟩ => ?_, fun _ => whole⟩
    · have short := behind.length_le
      rw [← whole] at short
      omega
    · rw [whole, same] at size
      omega

/-- Attempts are made at what is in front of the file, and end there. -/
theorem Attempts.suffix (attempts : Attempts c made c') (proper : c.Proper) (mem : a ∈ made) :
    a.begins.upcoming <:+ c.upcoming ∧ a.ends.upcoming <:+ c.upcoming := by
  induction attempts with
  | finish => cases mem
  | next attempt rest ih =>
    obtain ⟨before, taken, skipped, spans⟩ := attempt.spans proper
    have proper' := spans.start.proper proper
    cases mem with
    | head =>
      rw [spans.start.upcoming proper]
      refine ⟨List.suffix_append _ _, ?_⟩
      rw [spans.middle.upcoming proper']
      exact (List.suffix_append _ _).trans (List.suffix_append _ _)
    | tail _ mem =>
      obtain ⟨passed, passes, -⟩ := attempt.passes proper
      obtain ⟨begins, ends⟩ := ih (passes.proper proper) mem
      rw [passes.upcoming proper]
      exact ⟨begins.trans (List.suffix_append _ _), ends.trans (List.suffix_append _ _)⟩

/-- Every word that begins a declaration is the first token of an attempt, unless one has stopped in
front of it with a fault. -/
theorem Attempts.word (attempts : Attempts c made c') (proper : c.Proper)
    (word : beginsToplevel w.kind = true) (suffix : w :: after <:+ c.upcoming) :
    (∃ a ∈ made, a.begins.upcoming = w :: after) ↔
      ¬ ∃ a ∈ made, a.Failed ∧ a.ends.upcoming = w :: after := by
  induction attempts with
  | @finish c mid skipped ended =>
    obtain ⟨before, passes, inner⟩ := separators_passed proper skipped
    have none := (passes.proper proper).isTerminal_token.mp ended
    rw [passes.upcoming proper] at suffix
    have behind := suffix_inner inner word suffix
    rw [none] at behind
    cases List.suffix_nil.mp behind
  | @next c mid c' a more attempt rest ih =>
    obtain ⟨passed, passes, -⟩ := attempt.passes proper
    have proper' := passes.proper proper
    simp only [List.mem_cons, exists_eq_or_imp]
    obtain ⟨behind, no_begin, no_end⟩ | ⟨passed_by, here⟩ := attempt.word proper word suffix
    · rw [or_iff_right no_begin, or_iff_right no_end]
      exact ih proper' behind
    · have no_begin : ¬ ∃ b ∈ more, b.begins.upcoming = w :: after := by
        rintro ⟨b, mem, same⟩
        exact passed_by (same ▸ (rest.suffix proper' mem).1)
      have no_end : ¬ ∃ b ∈ more, b.Failed ∧ b.ends.upcoming = w :: after := by
        rintro ⟨b, mem, -, same⟩
        exact passed_by (same ▸ (rest.suffix proper' mem).2)
      rw [or_iff_left no_begin, or_iff_left no_end]
      exact here

end Words

/-- Every file is read by attempts up to its end, and what is read of it is what they have found. A
word that begins a declaration is the first token of one of them exactly if none of them has stopped
in front of it with a fault; the recovery from the fault takes such a word with the rest of the
attempt. -/
theorem toplevel_words_begin_attempts (name : String) (tokens : List Token) :
    let start := (Cursor.ofTokens tokens).tell (.started name)
    ∃ made c', Attempts start made c' ∧
      harvest start = endFault ((⟨[], []⟩ : Harvest).after made) c' ∧
      ∀ before w after, start.upcoming = before ++ w :: after → beginsToplevel w.kind = true →
        ((∃ a ∈ made, a.begins.upcoming = w :: after) ↔
          ¬ ∃ a ∈ made, a.Failed ∧ a.ends.upcoming = w :: after) := by
  intro start
  have proper : start.Proper := (Cursor.proper_ofTokens tokens).tell _
  obtain ⟨made, c', attempts⟩ := exists_attempts proper
  refine ⟨made, c', attempts, attempts.iterate proper, ?_⟩
  intro before w after parts word
  exact attempts.word proper word ⟨before, parts.symm⟩

/-- A function without its `end`, and one with a fault of its own behind it. The attempt at the
first one stops in front of the second one, which is passed over. -/
theorem toplevel_word_passed_over :
    let at_ (n : Nat) : Span := ⟨⟨n, 1, n + 1⟩, ⟨n + 1, 1, n + 2⟩⟩
    let second : List Token := [⟨.funcWord, "func", at_ 3⟩, ⟨.ident, "b", at_ 4⟩,
      ⟨.newline, "\n", at_ 5⟩, ⟨.letWord, "let", at_ 6⟩, ⟨.assign, "=", at_ 7⟩, ⟨.int, "1", at_ 8⟩,
      ⟨.newline, "\n", at_ 9⟩, ⟨.endWord, "end", at_ 10⟩]
    let first : List Token := [⟨.funcWord, "func", at_ 0⟩, ⟨.ident, "a", at_ 1⟩,
      ⟨.newline, "\n", at_ 2⟩]
    let start := (Cursor.ofTokens (first ++ second ++ [⟨.eof, "", at_ 11⟩])).tell (.started "f")
    start.upcoming = first ++ second ∧ ∃ a c', Attempts start [a] c' ∧ a.Failed ∧
      a.begins.upcoming = first ++ second ∧ a.ends.upcoming = second ∧
      ∀ b ∈ [a], b.begins.upcoming ≠ second := by
  intro at_ second first start
  obtain ⟨a, c', attempts, failed, begins, ends⟩ : ∃ a c', Attempts start [a] c' ∧ a.Failed ∧
      a.begins.upcoming = first ++ second ∧ a.ends.upcoming = second :=
    ⟨_, _, .next (.fail (by cbv) (by decide) (by cbv) (by cbv)) (.finish (by cbv) (by decide)),
      ⟨_, rfl⟩, by decide, by decide⟩
  refine ⟨by decide, a, c', attempts, failed, begins, ends, ?_⟩
  intro b mem
  rw [List.mem_singleton.mp mem, begins]
  decide

end Frontend.Grammar
