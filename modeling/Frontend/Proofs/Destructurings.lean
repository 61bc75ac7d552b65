import Frontend.Proofs.AdvancingFiles
import Frontend.Proofs.Endings
import Frontend.Proofs.LooseStmts
import Frontend.Proofs.Echoes
import Frontend.Proofs.Rows

/-!
Destructurings are patterns. Whatever a destructuring is read from, a pattern is read from as well,
and it is the same tree at the same place. The other way round it is so for the patterns that bind
and nothing else, if every case of an enum in them has its braces.
-/
namespace Frontend

mutual

/-- A destructuring as a pattern. It binds the same over the same stretches. -/
def Destructuring.toPattern : Destructuring → Pattern
  | .variable span name => .variable span name
  | .record span head fields others =>
    .record span head (patternFields fields) (patternOption others)
  | .rest span name => .rest span name

def Destructuring.patternOption : Option Destructuring → Option Pattern
  | none => none
  | some d => some d.toPattern

def Destructuring.patternFields :
    List (String × Option Destructuring) → List (String × Option Pattern)
  | [] => []
  | (name, d) :: more => (name, patternOption d) :: patternFields more

end

/-- A field of a destructuring as a field of a pattern. -/
def Destructuring.patternField (f : String × Option Destructuring) : String × Option Pattern :=
  (f.1, f.2.map toPattern)

theorem Destructuring.patternOption_eq (d : Option Destructuring) :
    patternOption d = d.map toPattern := by
  cases d <;> simp [patternOption]

theorem Destructuring.patternFields_eq (fields : List (String × Option Destructuring)) :
    patternFields fields = fields.map patternField := by
  induction fields with
  | nil => simp [patternFields]
  | cons f more ih =>
    obtain ⟨name, d⟩ := f
    simp [patternFields, ih, patternField, patternOption_eq]

/-- The variable that a destructuring is, and where it stands. -/
def Destructuring.asVariable : Destructuring → Option (Span × String)
  | .variable span name => some (span, name)
  | _ => none

/-- The variable that a pattern is, and where it stands. -/
def Pattern.asVariable : Pattern → Option (Span × String)
  | .variable span name => some (span, name)
  | _ => none

theorem Destructuring.asVariable_toPattern (d : Destructuring) :
    d.toPattern.asVariable = d.asVariable := by
  cases d <;> simp [toPattern, Pattern.asVariable, asVariable]

/-- A pattern that is no constant and no array. -/
def Pattern.isBinder : Pattern → Bool
  | .variable .. | .record .. | .rest .. => true
  | _ => false

/-- There is no constant and no array in a pattern. -/
def Pattern.Binds (p : Pattern) : Prop :=
  ∀ q, Node.Within (.pattern p) (.pattern q) → q.isBinder = true

/-- What is below a child is below its parent. -/
theorem Node.Within.under {root n m : Node} (child : n ∈ root.children) (h : Within n m) :
    Within root m := by
  induction h with
  | root => exact .child .root child
  | child _ mem ih => exact .child ih mem

theorem Pattern.Binds.field {span : Span} {head : RecordHead}
    {fields : List (String × Option Pattern)} {rest : Option Pattern} (binds : Binds (.record span head fields rest))
    {f : String × Option Pattern} (mem : f ∈ fields) {p : Pattern} (here : f.2 = some p) :
    p.Binds := by
  intro q within
  apply binds q
  refine .under (List.mem_append_left _ ?_) within
  exact List.mem_flatMap.mpr ⟨f, mem, Node.mem_maybe.mpr ⟨p, here, rfl⟩⟩

namespace Grammar

open Grammar.Parser
open Token (Kind)

/-- Every case of an enum on the way to a point with so many tokens left has braces behind it. -/
def CasesBraced (m : Nat) (c : Cursor) : Prop :=
  ∀ i, i + m < c.remaining → (c.token i).kind = .colonColon → (c.token (i + 2)).kind = .lbrace

/-- What a cursor shows ahead is of the kind that it had from before. -/
theorem Cursor.Passes.kind_token {c c' : Cursor} {taken : List Token} (passes : c.Passes taken c')
    (proper : c.Proper) (i : Nat) : (c'.token i).kind = (c.token (taken.length + i)).kind := by
  unfold Cursor.token
  rw [passes.upcoming proper, List.getElem?_append_right (Nat.le_add_right _ _),
    Nat.add_sub_cancel_left]
  cases c'.upcoming[i]? with
  | none => exact passes.kind_last
  | some t => rfl

theorem narrows_casesBraced : Narrows CasesBraced where
  onward := by
    intro c c' taken m proper passes known i less shown
    have left := passes.remaining proper
    rw [passes.kind_token proper] at shown ⊢
    have less' : taken.length + i + m < c.remaining := by omega
    exact known _ less' shown
  before := fun less known i more => known i (by omega)

/-- Nothing is asked of the way. -/
theorem narrows_true : Narrows fun _ _ => True where
  onward _ _ _ := trivial
  before _ _ := trivial

section Fields

variable {α β : Type} {n : Nat} {rules : Rules}

/-- A field that has a name and may be matched further, but is not renamed. `asBound` is the
variable that its value is. -/
def namedField (what : String) (binder : FieldBinder) (asBound : α → Option (Span × String))
    (inner : Parser α) : Parser (String × Option α) := do
  let name ← expectIdent what
  if ← ate .colon then
    skipNewlines
    let x ← inner
    match asBound x with
    | some (span, bound) =>
      if bound ≠ "_" then fail (.across span (.renamedField binder name.text bound))
      else pure (name.text, some x)
    | none => pure (name.text, some x)
  else pure (name.text, none)

theorem fieldPattern_eq (rules : Rules) : fieldPattern rules =
    namedField "field name of record pattern" .pattern Pattern.asVariable rules.pattern := by
  unfold fieldPattern namedField
  congr 1
  funext name
  congr 1
  funext colon
  congr 2
  funext _
  congr 1
  funext p
  cases p <;> rfl

theorem fieldDestructuring_eq (rules : Rules) : fieldDestructuring rules =
    namedField "field name of record destructuring" .destructuring Destructuring.asVariable
      rules.destructuring := by
  unfold fieldDestructuring namedField
  congr 1
  funext name
  congr 1
  funext colon
  congr 2
  funext _
  congr 1
  funext d
  cases d <;> rfl

/-- Fields whose values are echoed. -/
theorem echoes_namedField {within : Nat → Cursor → Prop} {good : α → Prop} {rel : α → β → Prop}
    {same : String × Option α → String × Option β → Prop} {what what' : String}
    {binder binder' : FieldBinder} {asBound : α → Option (Span × String)}
    {asBound' : β → Option (Span × String)} {inner : Parser α} {inner' : Parser β}
    (narrows : Narrows within) (advances : Advances n whatever always inner)
    (inners : Echoes n within good rel inner inner') (bare : ∀ name, same (name, none) (name, none))
    (kept : ∀ name a b, rel a b → asBound a = asBound' b ∧ same (name, some a) (name, some b)) :
    Echoes n within (fun f => ∀ a, f.2 = some a → good a) same
      (namedField what binder asBound inner) (namedField what' binder' asBound' inner') := by
  apply Echoes.expect_bind narrows rfl
  intro name
  apply Echoes.ate_ite narrows rfl
  · apply Echoes.skipNewlines_bind narrows
    apply Echoes.bind narrows advances.lax inners
    · intro a
      split
      · apply Advances.ite
        · exact fun _ => .fail nofun
        · exact fun _ => .pure id
      · exact .pure id
    · intro a
      split
      · apply Yields.ite
        · exact fun _ => .fail
        · exact fun _ => .pure fun good => good a rfl
      · exact .pure fun good => good a rfl
    · intro a b related
      obtain ⟨bound, fields⟩ := kept name.text a b related
      rw [bound]
      split
      · apply Echoes.ite
        · intro _ _ _ _ _ _ run
          cases run
        · exact fun _ => .pure fun _ => fields
      · exact .pure fun _ => fields
  · exact Echoes.pure fun _ => bare name.text

/-- Fields of a destructuring or a pattern up to the closing brace, and what is made of them. -/
def bracedFields (item : Parser α) (what : String)
    (build : List α → Option (Span × Option String) → Token → β) : Parser β := do
  let (fields, rest) ← closedListWithRest .rbrace item restBinder
  let close ← expect .rbrace what
  pure (build fields rest close)

theorem echoes_bracedFields {γ δ : Type} {within : Nat → Cursor → Prop} {good : α → Prop}
    {good' : γ → Prop} {rel : α → β → Prop} {rel' : γ → δ → Prop} {item : Parser α}
    {item' : Parser β} {what what' : String}
    {build : List α → Option (Span × Option String) → Token → γ}
    {build' : List β → Option (Span × Option String) → Token → δ} (narrows : Narrows within)
    (advances : Advances n whatever always item) (items : Echoes n within good rel item item')
    (back : ∀ fields rest close, good' (build fields rest close) → ∀ f ∈ fields, good f)
    (built : ∀ fields fields' rest close, List.Forall₂ rel fields fields' →
      rel' (build fields rest close) (build' fields' rest close)) :
    Echoes n within good' rel' (bracedFields item what build)
      (bracedFields item' what' build') := by
  apply Echoes.bind narrows (.closedListWithRest advances advances_restBinder)
    (.closedListWithRest narrows advances advances_restBinder items)
  · intro found
    exact (Advances.expect rfl).lax.bind fun _ => .pure id
  · intro found
    exact .step fun close => .pure (back found.1 found.2 close)
  · rintro ⟨fields, rest⟩ ⟨fields', rest'⟩ ⟨same, rfl⟩
    apply Echoes.expect_bind narrows rfl
    exact fun close => .pure fun _ => built fields fields' rest close same

/-- What is read by the rules for destructurings is read by the rules for patterns, and back. -/
structure Rules.Binding (n : Nat) (rules : Rules) : Prop where
  advancing : rules.Advancing n
  destructuring : Echoes n (fun _ _ => True) (fun _ => True) (fun d p => d.toPattern = p)
    rules.destructuring rules.pattern
  pattern : Echoes n CasesBraced Pattern.Binds (fun p d => d.toPattern = p)
    rules.pattern rules.destructuring

theorem echoes_fieldDestructuring (binding : rules.Binding n) :
    Echoes n (fun _ _ => True) (fun f => ∀ d, f.2 = some d → True)
      (fun f g => Destructuring.patternField f = g) (fieldDestructuring rules)
      (fieldPattern rules) := by
  rw [fieldDestructuring_eq, fieldPattern_eq]
  apply echoes_namedField narrows_true binding.advancing.destructuring binding.destructuring
  · exact fun _ => rfl
  · rintro name d _ rfl
    exact ⟨d.asVariable_toPattern.symm, rfl⟩

theorem echoes_fieldPattern (binding : rules.Binding n) :
    Echoes n CasesBraced (fun f => ∀ p, f.2 = some p → p.Binds)
      (fun g f => Destructuring.patternField f = g) (fieldPattern rules)
      (fieldDestructuring rules) := by
  rw [fieldDestructuring_eq, fieldPattern_eq]
  apply echoes_namedField narrows_casesBraced binding.advancing.pattern binding.pattern
  · exact fun _ => rfl
  · rintro name _ d rfl
    exact ⟨d.asVariable_toPattern, rfl⟩

end Fields

section Records

variable {n : Nat} {rules : Rules}

/-- A record destructuring from its head and its fields on. -/
def buildDestructuring (start : Option Position) (head : RecordHead) (opening : Token)
    (fields : List (String × Option Destructuring)) (rest : Option (Span × Option String))
    (close : Token) : Destructuring :=
  .record ⟨start.getD opening.span.start, close.span.stop⟩ head fields
    (rest.map fun r => .rest r.1 r.2)

/-- A record pattern from its head and its fields on. -/
def buildPattern (start : Option Position) (head : RecordHead) (opening : Token)
    (fields : List (String × Option Pattern)) (rest : Option (Span × Option String))
    (close : Token) : Pattern :=
  .record ⟨start.getD opening.span.start, close.span.stop⟩ head fields
    (rest.map fun r => .rest r.1 r.2)

theorem buildDestructuring_toPattern {start : Option Position} {head : RecordHead}
    {opening close : Token} {fields : List (String × Option Destructuring)}
    {rest : Option (Span × Option String)} :
    (buildDestructuring start head opening fields rest close).toPattern =
      buildPattern start head opening (fields.map Destructuring.patternField) rest close := by
  cases rest <;>
    simp [buildDestructuring, buildPattern, Destructuring.toPattern, Destructuring.patternFields_eq,
      Destructuring.patternOption]

/-- The fields of a destructuring are those of a pattern, behind the same head. -/
theorem echoes_destructuringFields (binding : rules.Binding n) (start : Option Position)
    (head : RecordHead) (opening : Token) :
    Echoes n (fun _ _ => True) (fun _ => True) (fun d p => d.toPattern = p)
      (bracedFields (fieldDestructuring rules) "'\x7d' closing record destructuring"
        (buildDestructuring start head opening))
      (bracedFields (fieldPattern rules) "'\x7d' closing record pattern"
        (buildPattern start head opening)) := by
  apply echoes_bracedFields narrows_true (advances_fieldDestructuring binding.advancing)
    (echoes_fieldDestructuring binding)
  · exact fun _ _ _ _ _ _ _ _ => trivial
  · intro fields fields' rest close same
    have mapped := List.forall₂_map_left_iff.mpr same
    rw [List.forall₂_eq_eq_eq] at mapped
    rw [buildDestructuring_toPattern, mapped]

/-- The fields of a pattern that binds only are those of a destructuring, behind the same head. -/
theorem echoes_patternFields (binding : rules.Binding n) (start : Option Position)
    (head : RecordHead) (opening : Token) :
    Echoes n CasesBraced Pattern.Binds (fun p d => d.toPattern = p)
      (bracedFields (fieldPattern rules) "'\x7d' closing record pattern"
        (buildPattern start head opening))
      (bracedFields (fieldDestructuring rules) "'\x7d' closing record destructuring"
        (buildDestructuring start head opening)) := by
  apply echoes_bracedFields narrows_casesBraced (advances_fieldPattern binding.advancing)
    (echoes_fieldPattern binding)
  · exact fun fields rest close binds f mem p here => binds.field mem here
  · intro fields fields' rest close same
    have mapped := List.forall₂_map_left_iff.mpr same.flip
    rw [List.forall₂_eq_eq_eq] at mapped
    rw [buildDestructuring_toPattern, mapped]

theorem nameEnd_eq {c : Cursor} (proper : c.Proper) : nameEnd c.upcoming =
    if (c.token 0).kind = .ident then if (c.token 1).kind = .colonColon then 3 else 1 else 0 := by
  simp only [nameEnd, proper.kind_token (k := .ident) rfl, proper.kind_token (k := .colonColon) rfl,
    List.drop_zero]

/-- The head of a record is the name in front of the braces. -/
theorem recordHead_passes {found : Option Position × RecordHead} {c c' : Cursor}
    (proper : c.Proper) (run : recordHead c = .ok found c') :
    ∃ taken, c.Passes taken c' ∧ taken.length = nameEnd c.upcoming := by
  obtain ⟨k, c₀, looked, run⟩ := bind_eq_ok.mp run
  cases looked
  rw [nameEnd_eq proper]
  by_cases ident : (c.token 0).kind = .ident
  · rw [Cursor.token_receive, if_pos ident] at run
    obtain ⟨name, c₁, first, run⟩ := bind_eq_ok.mp run
    obtain ⟨-, -, named⟩ := expect_passes rfl first
    have passes := Cursor.Passes.trans (.receive .stay 0) named
    have next : (c₁.token 0).kind = (c.token 1).kind := passes.kind_token proper 0
    obtain ⟨colons, c₂, second, run⟩ := bind_eq_ok.mp run
    obtain ⟨found', c₃, ate, answer⟩ := bind_eq_ok.mp second
    cases answer
    obtain ⟨colonColon, rfl, passes'⟩ | ⟨other, rfl, passes'⟩ := eat_passes rfl ate
    · rw [next] at colonColon
      obtain ⟨member, c₄, third, run⟩ := bind_eq_ok.mp run
      obtain ⟨-, -, passes''⟩ := expect_passes rfl third
      cases run
      rw [if_pos ident, if_pos colonColon]
      exact ⟨_, (passes.trans passes').trans passes'', rfl⟩
    · rw [next] at other
      cases run
      rw [if_pos ident, if_neg other]
      exact ⟨_, passes.trans passes', rfl⟩
  · rw [Cursor.token_receive, if_neg ident] at run
    cases run
    rw [if_neg ident]
    exact ⟨[], .receive .stay 0, rfl⟩

theorem advances_recordHead : Advances n whatever never recordHead := by
  cases n with
  | zero => exact fun _ _ short => (Nat.not_lt_zero _ short).elim
  | succ n =>
    have taken : Advances (n + 1) whatever never (recordHead >>= Pure.pure) :=
      advances_recordHead_bind (fun _ => .pure id) fun _ => .pure id
    rwa [bind_pure] at taken

theorem echoes_recordDestructuring (binding : rules.Binding n) :
    Echoes (n + 1) (fun _ _ => True) (fun _ => True) (fun d p => d.toPattern = p)
      (recordDestructuring rules) (recordPattern rules) := by
  apply Echoes.step narrows_true advances_recordHead fun _ _ _ run => run
  rintro ⟨start, head⟩ c proper short d c' run - -
  obtain ⟨opening, mid, brace, fields⟩ := bind_eq_ok.mp run
  obtain ⟨-, -, passes⟩ := expect_passes rfl brace
  have left := passes.remaining proper
  simp only [List.length_singleton] at left
  obtain ⟨p, same, fields'⟩ := echoes_destructuringFields binding start head opening mid
    (passes.proper proper) (by omega) d c' fields trivial trivial
  exact ⟨p, same, bind_eq_ok.mpr ⟨some opening, mid, eat_of_expect brace, fields'⟩⟩

/-- Behind the head of a record whose cases have braces stands a brace. -/
theorem kind_nameEnd {c : Cursor} {m : Nat} (proper : c.Proper)
    (begins : (c.token 0).kind = .lbrace ∨ (c.token 0).kind = .ident ∧
      ((c.token 1).kind = .lbrace ∨ (c.token 1).kind = .colonColon))
    (behind : m + nameEnd c.upcoming ≤ c.remaining) (braced : CasesBraced m c) :
    (c.token (nameEnd c.upcoming)).kind = .lbrace := by
  rw [nameEnd_eq proper] at behind ⊢
  obtain brace | ⟨ident, brace | colonColon⟩ := begins
  · rw [if_neg (by rw [brace]; nofun)]
    exact brace
  · rw [if_pos ident, if_neg (by rw [brace]; nofun)]
    exact brace
  · rw [if_pos ident, if_pos colonColon] at behind ⊢
    exact braced 1 (by omega) colonColon

theorem echoesAt_recordPattern (binding : rules.Binding n) {c : Cursor} (proper : c.Proper)
    (short : c.remaining < n + 1)
    (begins : (c.token 0).kind = .lbrace ∨ (c.token 0).kind = .ident ∧
      ((c.token 1).kind = .lbrace ∨ (c.token 1).kind = .colonColon)) :
    EchoesAt c CasesBraced Pattern.Binds (fun p d => d.toPattern = p) (recordPattern rules)
      (recordDestructuring rules) := by
  intro p c' run braced binds
  obtain ⟨⟨start, head⟩, c₁, named, run⟩ := bind_eq_ok.mp run
  obtain ⟨taken, passes, size⟩ := recordHead_passes proper named
  have proper₁ := passes.proper proper
  have left := passes.remaining proper
  obtain ⟨opening, mid, ate, run⟩ := bind_eq_ok.mp run
  obtain ⟨-, rfl, passes'⟩ | ⟨other, rfl, passes'⟩ := eat_passes rfl ate
  · have left' := passes'.remaining proper₁
    simp only [List.length_singleton] at left'
    have braced' := narrows_casesBraced.onward proper (passes.trans passes') braced
    obtain ⟨d, same, fields⟩ := echoes_patternFields binding start head (c₁.token 0) mid
      (passes'.proper proper₁) (by omega) p c' run braced' binds
    refine ⟨d, same, bind_eq_ok.mpr ⟨_, c₁, named, ?_⟩⟩
    exact bind_eq_ok.mpr ⟨c₁.token 0, mid, expect_of_eat ate, fields⟩
  · -- Without a brace only the case of an enum is a record, and those have one on this way.
    obtain ⟨stop, _, here, ends⟩ := bind_eq_ok.mp run
    cases here
    cases ends
    have left' := passes'.remaining proper₁
    simp only [List.length_nil, Nat.zero_add] at left'
    have brace := kind_nameEnd proper begins (by omega) braced
    rw [← size, ← Nat.add_zero taken.length, ← passes.kind_token proper] at brace
    exact absurd brace other

theorem literalPattern_not_binds {t : Token} {minus : Option Position} :
    Yields (literalPattern t minus) (¬ ·.Binds) := by
  unfold literalPattern
  split
  next value _ =>
    apply Yields.pure
    intro binds
    have binder := binds _ .root
    cases value <;> cases binder
  next => exact .fail

theorem arrayPattern_not_binds : Yields (arrayPattern rules) (¬ ·.Binds) := by
  apply Yields.step
  intro opening
  apply Yields.step
  intro found
  apply Yields.step
  intro close
  apply Yields.pure
  intro binds
  cases binds _ .root

theorem negativePattern_not_binds : Yields negativePattern (¬ ·.Binds) := by
  apply Yields.step
  intro minus
  apply Yields.step
  intro k
  apply Yields.ite
  · intro _
    apply Yields.step
    exact fun t => literalPattern_not_binds
  · exact fun _ => .unexpected

end Records

section Full

variable {n : Nat} {rules : Rules} {c : Cursor}

theorem echoes_destructuring (binding : rules.Binding n) :
    Echoes (n + 1) (fun _ _ => True) (fun _ => True) (fun d p => d.toPattern = p)
      (destructuring rules) (pattern rules) := by
  intro c proper short
  apply EchoesAt.kindAt_bind narrows_true proper
  have proper' := proper.receive 0
  have short' : (c.receive 0).remaining < n + 1 := by simpa using short
  split
  next ident =>
    rw [ident, if_neg (by decide)]
    apply EchoesAt.kindAt_bind narrows_true proper'
    have short'' : ((c.receive 0).receive 1).remaining < n + 1 := by simpa using short'
    refine Echoes.ite (fun _ => ?_) (fun _ => ?_) _ (proper'.receive 1) short''
    · exact echoes_recordDestructuring binding
    · apply Echoes.expect_bind narrows_true rfl
      exact fun name => .pure fun _ => rfl
  next brace =>
    rw [brace, if_neg (by decide)]
    exact echoes_recordDestructuring binding _ proper' short'
  next =>
    intro _ _ run
    cases run

theorem echoes_pattern (binding : rules.Binding n) :
    Echoes (n + 1) CasesBraced Pattern.Binds (fun p d => d.toPattern = p) (pattern rules)
      (destructuring rules) := by
  intro c proper short
  apply EchoesAt.kindAt_bind narrows_casesBraced proper
  have proper' := proper.receive 0
  have short' : (c.receive 0).remaining < n + 1 := by simpa using short
  by_cases literal : Literal.isKind (c.token 0).kind = true
  · rw [if_pos literal]
    exact .of_not (.step fun t => literalPattern_not_binds)
  rw [if_neg literal]
  split
  next => exact .of_not negativePattern_not_binds
  next ident =>
    rw [ident]
    apply EchoesAt.kindAt_bind narrows_casesBraced proper'
    have short'' : ((c.receive 0).receive 1).remaining < n + 1 := by simpa using short'
    apply EchoesAt.ite
    · intro after
      apply echoesAt_recordPattern binding (proper'.receive 1) short''
      simp only [Cursor.token_receive] at after ⊢
      exact .inr ⟨ident, after⟩
    · intro _
      refine Echoes.expect_bind narrows_casesBraced rfl ?_ _ (proper'.receive 1) short''
      exact fun name => .pure fun _ => rfl
  next brace =>
    rw [brace]
    apply echoesAt_recordPattern binding proper' short'
    exact .inl (by rwa [Cursor.token_receive])
  next => exact .of_not arrayPattern_not_binds
  next =>
    intro _ _ run
    cases run

theorem echoes_forFewer {α β : Type} {within : Nat → Cursor → Prop} {good : α → Prop}
    {rel : α → β → Prop} {p : (m : Nat) → m < n → Parser α} {q : (m : Nat) → m < n → Parser β}
    (h : ∀ m less, Echoes (m + 1) within good rel (p m less) (q m less)) :
    Echoes n within good rel (forFewer n p) (forFewer n q) := by
  intro c proper short a c' run
  rw [forFewer_apply short] at run ⊢
  exact h c.remaining short c proper (Nat.lt_succ_self _) a c' run

theorem binding_below (n : Nat) : (below n).Binding n := by
  induction n using Nat.strongRecOn with
  | ind n ih =>
    refine ⟨advancing_below n, ?_, ?_⟩
    · rw [below_eq]
      exact echoes_forFewer fun m less => echoes_destructuring (ih m less)
    · rw [below_eq]
      exact echoes_forFewer fun m less => echoes_pattern (ih m less)

end Full

/-- Whatever is read as a destructuring is read as a pattern too: with the same tokens, and as the
same tree over the same stretches. A pattern without constants and arrays, with braces behind every
case of an enum, is read as a destructuring, with the same tokens and as the same tree. -/
theorem destructurings_are_patterns {c : Cursor} (proper : c.Proper) :
    (∀ d c', full.destructuring c = .ok d c' → full.pattern c = .ok d.toPattern c') ∧
    ∀ p c', full.pattern c = .ok p c' → p.Binds → CasesBraced c'.remaining c →
      ∃ d : Destructuring, d.toPattern = p ∧ full.destructuring c = .ok d c' := by
  constructor
  · intro d c' run
    obtain ⟨_, rfl, run'⟩ := echoes_destructuring (binding_below c.remaining) c proper
      (Nat.lt_succ_self _) d c' run trivial trivial
    exact run'
  · intro p c' run binds braced
    exact echoes_pattern (binding_below c.remaining) c proper (Nat.lt_succ_self _) p c' run braced
      binds

/-- A case of an enum with one field in its braces, on one line. -/
theorem destructurings_are_patterns_case :
    let at_ (n : Nat) : Span := ⟨⟨n, 1, n + 1⟩, ⟨n + 1, 1, n + 2⟩⟩
    let c := Cursor.ofTokens [⟨.ident, "P", at_ 0⟩, ⟨.colonColon, "::", at_ 1⟩,
      ⟨.ident, "Q", at_ 2⟩, ⟨.lbrace, "\x7b", at_ 3⟩, ⟨.ident, "x", at_ 4⟩, ⟨.rbrace, "\x7d", at_ 5⟩]
    let d : Destructuring := .record ⟨⟨0, 1, 1⟩, ⟨6, 1, 7⟩⟩ ⟨some "P", some "Q"⟩ [("x", none)] none
    ∃ c', full.destructuring c = .ok d c' ∧ full.pattern c = .ok d.toPattern c' ∧
      d.toPattern.Binds ∧ CasesBraced c'.remaining c ∧
      ∃ d' : Destructuring, d'.toPattern = d.toPattern ∧ full.destructuring c = .ok d' c' := by
  intro at_ c d
  have proper : c.Proper := Cursor.proper_ofTokens _
  obtain ⟨c', run⟩ : ∃ c', full.destructuring c = .ok d c' := ⟨_, by cbv⟩
  have run' := (destructurings_are_patterns proper).1 d c' run
  have binds : d.toPattern.Binds := by
    have alone : ∀ n, Node.Within (.pattern d.toPattern) n → n = .pattern d.toPattern := by
      intro n within
      induction within with
      | root => rfl
      | child above mem ih =>
        subst ih
        cases mem
    intro q within
    cases alone _ within
    rfl
  have braced : CasesBraced c'.remaining c := by
    have shown : ∀ i < 6, (c.token i).kind = .colonColon → (c.token (i + 2)).kind = .lbrace := by
      decide
    intro i less
    exact shown i (Nat.lt_of_le_of_lt (Nat.le_add_right _ _) less)
  exact ⟨c', run, run', binds, braced,
    (destructurings_are_patterns proper).2 _ c' run' binds braced⟩

end Grammar
end Frontend
