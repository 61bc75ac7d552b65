import Frontend.Grammar.TypeExpr
import Frontend.Grammar.Pattern
import Frontend.Proofs.Advances

/-!
Types, patterns and destructurings take a token each and never stall, as long as the rules that they
call do so on what is left of the stream.
-/
namespace Frontend.Grammar

open Frontend.Grammar.Parser
open Token (Kind)

/-- Rules that take a token each in front of less than `n` of them, and never stall. -/
structure Rules.Advancing (n : Nat) (rules : Rules) : Prop where
  binary : ∀ power {ahead}, Advances n ahead always (rules.binary power)
  unary : ∀ {ahead}, Advances n ahead always rules.unary
  typeExpr : ∀ {ahead}, Advances n ahead always rules.typeExpr
  pattern : ∀ {ahead}, Advances n ahead always rules.pattern
  destructuring : ∀ {ahead}, Advances n ahead always rules.destructuring
  statement : ∀ {ahead}, Advances n ahead always rules.statement

variable {n : Nat} {ahead : List Token → Prop} {rules : Rules}

theorem Rules.Advancing.expr (advancing : rules.Advancing n) :
    Advances n ahead always rules.expr :=
  advancing.binary 1

theorem advances_namedType (advancing : rules.Advancing n) :
    Advances (n + 1) ahead always (namedType rules) := by
  apply Advances.first .expectIdent
  intro name
  apply Advances.ite
  · exact fun _ => .pure id
  intro _
  apply Advances.kind_bind
  intro k
  split
  · apply (Advances.next_seen rfl).start
    intro _
    apply Advances.start .expectIdent
    exact fun _ => .pure id
  · apply (Advances.next_seen rfl).start
    intro _
    apply Advances.bind (.closedList fun _ => advancing.typeExpr)
    intro args
    apply Advances.start (.expect rfl)
    exact fun _ => .pure id
  · exact .pure id

theorem advances_checkFieldName {α : Type} {form : FieldSyntax} {fields : List (String × α)}
    {name : Token} : Advances n ahead never (checkFieldName form fields name) := by
  unfold checkFieldName
  split
  · exact .pure id
  apply Advances.ite
  · exact fun _ => .fail nofun
  intro _
  apply Advances.ite
  · exact fun _ => .fail nofun
  · exact fun _ => .pure id

theorem advances_typeField (advancing : rules.Advancing n) (fields : List (String × TypeExpr)) :
    Advances n ahead always (typeField rules fields) := by
  apply Advances.start .expectIdent
  intro name
  apply advances_checkFieldName.bind
  intro _
  apply Advances.start (.expect rfl)
  intro _
  apply Advances.skipNewlines.bind
  intro _
  apply advancing.typeExpr.bind
  exact fun _ => .pure id

theorem advances_recordOrTupleType (advancing : rules.Advancing n) :
    Advances (n + 1) ahead always (recordOrTupleType rules) := by
  apply Advances.first (.expect rfl)
  intro opening
  apply Advances.bind (.closedList (advances_typeField advancing))
  intro fields
  apply Advances.start (.expect rfl)
  exact fun _ => .pure id

theorem advances_functionType (advancing : rules.Advancing n)
    (some : ∀ tokens, ahead tokens → tokens ≠ []) :
    Advances (n + 1) ahead always (functionType rules) := by
  apply Advances.first (.next some)
  intro opening
  apply Advances.bind (.closedList fun _ => advancing.typeExpr)
  intro params
  apply Advances.start (.expect rfl)
  intro _
  apply Advances.start (.expect rfl)
  intro _
  apply advancing.typeExpr.bind
  exact fun _ => .pure id

theorem advances_typeOf (advancing : rules.Advancing n)
    (some : ∀ tokens, ahead tokens → tokens ≠ []) :
    Advances (n + 1) ahead always (typeOf rules) := by
  apply Advances.first (.next some)
  intro word
  apply Advances.start (.expect rfl)
  intro _
  apply Advances.skipNewlines.bind
  intro _
  apply advancing.expr.bind
  intro value
  apply Advances.skipNewlines.bind
  intro _
  apply Advances.start (.expect rfl)
  exact fun _ => .pure id

/-- A token whose kind has been seen is there. -/
theorem some_of_showing {k : Kind} (going : k.isTerminal = false) (tokens : List Token)
    (here : ahead tokens ∧ Showing 0 k tokens) : tokens ≠ [] :=
  here.2.ne_nil going

theorem advances_typeExpr (advancing : rules.Advancing n) :
    Advances (n + 1) ahead always (typeExpr rules) := by
  apply Advances.kind_bind
  intro k
  split
  · exact advances_namedType advancing
  · exact advances_recordOrTupleType advancing
  · exact advances_functionType advancing (some_of_showing rfl)
  · exact advances_typeOf advancing (some_of_showing rfl)
  · exact .unexpected

theorem advances_literalPattern {t : Token} {minus : Option Position} :
    Advances n ahead never (literalPattern t minus) := by
  unfold literalPattern
  split
  · exact .pure id
  · exact .fail nofun

/-- In front of a name the head of a record takes it; otherwise nothing is taken. -/
theorem advances_recordHead_bind {β : Type} {k : Option Position × RecordHead → Parser β}
    {final : β → Prop} (named : ∀ found, Advances n whatever never (k found))
    (bare : ∀ head, Advances (n + 1) (fun tokens => ahead tokens ∧ Lacking .ident tokens) final
      (k (none, head))) :
    Advances (n + 1) ahead final (recordHead >>= k) := by
  unfold recordHead
  rw [bind_assoc]
  apply Advances.kind_bind
  intro kind
  by_cases ident : kind = .ident
  · rw [if_pos ident, bind_assoc]
    apply Advances.first .expectIdent
    intro name
    have rest : Advances n whatever never (do
        if ← ate .colonColon then
          let member ← expectIdent "enum case name after '::'"
          pure (some name.span.start, (⟨some name.text, some member.text⟩ : RecordHead))
        else pure (some name.span.start, ⟨some name.text, none⟩)) := by
      apply Advances.ate_ite rfl
      · apply Advances.start .expectIdent
        exact fun _ => .pure id
      · exact .pure id
    exact rest.bind named
  · rw [if_neg ident, pure_bind]
    exact (bare _).forget fun tokens here => ⟨here.1, here.2.lacking ident⟩

theorem advances_restBinder : Advances n (Showing 0 .ellipsis) always restBinder := by
  apply Advances.start (.next fun _ seen => seen.ne_nil rfl)
  intro dots
  apply (Advances.eat rfl).bind
  rintro (_ | name)
  · exact .pure id
  · exact .pure id

theorem advances_fieldPattern (advancing : rules.Advancing n) :
    Advances n ahead always (fieldPattern rules) := by
  apply Advances.start .expectIdent
  intro name
  apply Advances.ate_ite rfl
  · apply Advances.skipNewlines.bind
    intro _
    apply advancing.pattern.bind
    intro p
    split
    · apply Advances.ite
      · exact fun _ => .fail nofun
      · exact fun _ => .pure id
    · exact .pure id
  · exact .pure id

/-- Tokens that begin with a name or with a brace. -/
def BeginsRecord (tokens : List Token) : Prop := Showing 0 .ident tokens ∨ Showing 0 .lbrace tokens

/-- Tokens that begin with a name or a brace and lack the name begin with the brace. -/
theorem BeginsRecord.not_lacking {tokens : List Token} (begins : BeginsRecord tokens)
    (no_name : Lacking .ident tokens) : ¬ Lacking .lbrace tokens := by
  intro no_brace
  obtain name | brace := begins
  · obtain ⟨t, rest, rfl⟩ := List.exists_cons_of_ne_nil (name.ne_nil rfl)
    exact no_name t rfl (name.kind t rfl)
  · obtain ⟨t, rest, rfl⟩ := List.exists_cons_of_ne_nil (brace.ne_nil rfl)
    exact no_brace t rfl (brace.kind t rfl)

theorem advances_recordPattern (advancing : rules.Advancing n)
    (begins : ∀ tokens, ahead tokens → BeginsRecord tokens) :
    Advances (n + 1) ahead always (recordPattern rules) := by
  have braces : ∀ (start : Option Position) (head : RecordHead) (opening : Token),
      Advances n whatever never (do
        let found ← closedListWithRest .rbrace (fieldPattern rules) restBinder
        let close ← expect .rbrace "'\x7d' closing record pattern"
        let span := ⟨start.getD opening.span.start, close.span.stop⟩
        pure (Pattern.record span head found.1 (found.2.map fun r => .rest r.1 r.2))) := by
    intro start head opening
    apply Advances.bind (.closedListWithRest (advances_fieldPattern advancing) advances_restBinder)
    intro found
    apply Advances.start (.expect rfl)
    exact fun _ => .pure id
  apply advances_recordHead_bind
  · intro found
    apply (Advances.eat rfl).bind
    rintro (_ | opening)
    · exact Advances.place.bind fun _ => .pure id
    · exact braces found.1 found.2 opening
  · intro head
    apply Advances.eat_bind rfl
    · intro opening
      exact (braces none head opening).forget fun _ _ => trivial
    · apply Advances.absurd
      rintro tokens ⟨⟨here, no_name⟩, no_brace⟩
      exact (begins tokens here).not_lacking no_name no_brace

theorem advances_arrayPattern (advancing : rules.Advancing n)
    (some : ∀ tokens, ahead tokens → tokens ≠ []) :
    Advances (n + 1) ahead always (arrayPattern rules) := by
  apply Advances.first (.next some)
  intro opening
  apply Advances.bind (.closedListWithRest advancing.pattern advances_restBinder)
  intro found
  apply Advances.start (.expect rfl)
  exact fun _ => .pure id

theorem advances_negativePattern (some : ∀ tokens, ahead tokens → tokens ≠ []) :
    Advances n ahead always negativePattern := by
  apply Advances.start (.next some)
  intro minus
  apply Advances.kind_bind
  intro k
  apply Advances.ite
  · intro number
    have going : k.isTerminal = false := by
      obtain rfl | rfl := number
      · rfl
      · rfl
    apply (Advances.next_seen going).start
    exact fun _ => advances_literalPattern
  · exact fun _ => .unexpected

/-- The words that are literals do not end a stream. -/
theorem going_of_isKind {k : Kind} (h : Literal.isKind k) : k.isTerminal = false := by
  cases k <;> first | rfl | cases h

theorem advances_pattern (advancing : rules.Advancing n) :
    Advances (n + 1) ahead always (pattern rules) := by
  apply Advances.kind_bind
  intro k
  apply Advances.ite
  · intro literal
    apply (Advances.next_seen (going_of_isKind literal)).start
    exact fun _ => advances_literalPattern
  intro _
  split
  · exact advances_negativePattern (some_of_showing rfl)
  · apply Advances.kindAt_bind
    intro after
    apply Advances.ite
    · intro _
      exact advances_recordPattern advancing fun tokens here => .inl here.1.2
    · intro _
      apply Advances.start .expectIdent
      exact fun _ => .pure id
  · exact advances_recordPattern advancing fun tokens here => .inr here.2
  · exact advances_arrayPattern advancing (some_of_showing rfl)
  · exact .unexpected

theorem advances_fieldDestructuring (advancing : rules.Advancing n) :
    Advances n ahead always (fieldDestructuring rules) := by
  apply Advances.start .expectIdent
  intro name
  apply Advances.ate_ite rfl
  · apply Advances.skipNewlines.bind
    intro _
    apply advancing.destructuring.bind
    intro d
    split
    · apply Advances.ite
      · exact fun _ => .fail nofun
      · exact fun _ => .pure id
    · exact .pure id
  · exact .pure id

theorem advances_recordDestructuring (advancing : rules.Advancing n) :
    Advances (n + 1) ahead always (recordDestructuring rules) := by
  have fields : ∀ (start : Option Position) (head : RecordHead) (opening : Token),
      Advances n whatever never (do
        let found ← closedListWithRest .rbrace (fieldDestructuring rules) restBinder
        let close ← expect .rbrace "'\x7d' closing record destructuring"
        let span := ⟨start.getD opening.span.start, close.span.stop⟩
        pure (Destructuring.record span head found.1 (found.2.map fun r => .rest r.1 r.2))) := by
    intro start head opening
    apply Advances.bind
      (.closedListWithRest (advances_fieldDestructuring advancing) advances_restBinder)
    intro found
    apply Advances.start (.expect rfl)
    exact fun _ => .pure id
  apply advances_recordHead_bind
  · intro found
    apply Advances.start (.expect rfl)
    exact fun opening => fields found.1 found.2 opening
  · intro head
    apply Advances.first (.expect rfl)
    exact fun opening => fields none head opening

theorem advances_destructuring (advancing : rules.Advancing n) :
    Advances (n + 1) ahead always (destructuring rules) := by
  apply Advances.kind_bind
  intro k
  split
  · apply Advances.kindAt_bind
    intro after
    apply Advances.ite
    · exact fun _ => advances_recordDestructuring advancing
    · intro _
      apply Advances.start .expectIdent
      exact fun _ => .pure id
  · exact advances_recordDestructuring advancing
  · exact .unexpected

end Frontend.Grammar
