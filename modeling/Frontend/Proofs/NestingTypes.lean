import Frontend.Grammar.TypeExpr
import Frontend.Proofs.Nests

/-!
Types, patterns and destructurings take no word that begins a declaration, and close the braces that
they open, as long as the rules that they call do so.
-/
namespace Frontend.Grammar

open Frontend.Grammar.Parser
open Token (Kind)

/-- Rules that stay inside a declaration, and leave as many braces open as there were. -/
structure Rules.Nesting (rules : Rules) : Prop where
  binary : ∀ power {d ahead}, Nests d d ahead (rules.binary power)
  unary : ∀ {d ahead}, Nests d d ahead rules.unary
  typeExpr : ∀ {d ahead}, Nests d d ahead rules.typeExpr
  pattern : ∀ {d ahead}, Nests d d ahead rules.pattern
  destructuring : ∀ {d ahead}, Nests d d ahead rules.destructuring
  statement : ∀ {d ahead}, Nests d d ahead rules.statement

variable {d : Nat} {ahead : List Token → Prop} {rules : Rules}

theorem Rules.Nesting.expr (nesting : rules.Nesting) : Nests d d ahead rules.expr :=
  nesting.binary 1

theorem nests_namedType (nesting : rules.Nesting) : Nests d d ahead (namedType rules) := by
  apply Nests.expectIdent.bind
  intro name
  apply Nests.ite
  · exact fun _ => .pure
  intro _
  apply Nests.kind_bind
  intro k
  split
  · apply (Nests.next_seen rfl).bind
    intro _
    apply Nests.expectIdent.bind
    exact fun _ => .pure
  · apply Nests.next_bind (fun _ here => here.2) rfl rfl rfl
    intro _ _
    apply Nests.bind (.closedList fun _ => nesting.typeExpr)
    intro args
    apply Nests.closing_bind
    exact fun _ => .pure
  · exact .pure

theorem nests_checkFieldName {α : Type} {form : FieldSyntax} {fields : List (String × α)}
    {name : Token} : Nests d d ahead (checkFieldName form fields name) := by
  unfold checkFieldName
  split
  · exact .pure
  apply Nests.ite
  · exact fun _ => .fail
  intro _
  apply Nests.ite
  · exact fun _ => .fail
  · exact fun _ => .pure

theorem nests_typeField (nesting : rules.Nesting) (fields : List (String × TypeExpr)) :
    Nests d d ahead (typeField rules fields) := by
  apply Nests.expectIdent.bind
  intro name
  apply nests_checkFieldName.bind
  intro _
  apply (Nests.expect rfl).bind
  intro _
  apply Nests.skipNewlines.bind
  intro _
  apply nesting.typeExpr.bind
  exact fun _ => .pure

theorem nests_recordOrTupleType (nesting : rules.Nesting) :
    Nests d d ahead (recordOrTupleType rules) := by
  apply Nests.opening_bind
  intro opening
  apply Nests.bind (.closedList (nests_typeField nesting))
  intro fields
  apply Nests.closing_bind
  exact fun _ => .pure

theorem nests_functionType (nesting : rules.Nesting)
    (seen : ∀ tokens, ahead tokens → Showing 0 .lparen tokens) :
    Nests d d ahead (functionType rules) := by
  apply (Nests.next seen rfl).bind
  intro opening
  apply Nests.bind (.closedList fun _ => nesting.typeExpr)
  intro params
  apply (Nests.expect rfl).bind
  intro _
  apply (Nests.expect rfl).bind
  intro _
  apply nesting.typeExpr.bind
  exact fun _ => .pure

theorem nests_typeOf (nesting : rules.Nesting)
    (seen : ∀ tokens, ahead tokens → Showing 0 .typeofWord tokens) :
    Nests d d ahead (typeOf rules) := by
  apply (Nests.next seen rfl).bind
  intro word
  apply (Nests.expect rfl).bind
  intro _
  apply Nests.skipNewlines.bind
  intro _
  apply nesting.expr.bind
  intro value
  apply Nests.skipNewlines.bind
  intro _
  apply (Nests.expect rfl).bind
  exact fun _ => .pure

theorem nests_typeExpr (nesting : rules.Nesting) : Nests d d ahead (typeExpr rules) := by
  apply Nests.kind_bind
  intro k
  split
  · exact nests_namedType nesting
  · exact nests_recordOrTupleType nesting
  · exact nests_functionType nesting fun _ here => here.2
  · exact nests_typeOf nesting fun _ here => here.2
  · exact .unexpected

theorem nests_literalPattern {t : Token} {minus : Option Position} :
    Nests d d ahead (literalPattern t minus) := by
  unfold literalPattern
  split
  · exact .pure
  · exact .fail

theorem nests_recordHead : Nests d d ahead recordHead := by
  apply Nests.kind_bind
  intro kind
  apply Nests.ite
  · intro _
    apply Nests.expectIdent.bind
    intro name
    apply Nests.ate_ite rfl
    · apply Nests.expectIdent.bind
      exact fun _ => .pure
    · exact .pure
  · exact fun _ => .pure

theorem nests_restBinder : Nests d d (Showing 0 .ellipsis) restBinder := by
  apply (Nests.next (fun _ seen => seen) rfl).bind
  intro dots
  apply (Nests.eat rfl).bind
  rintro (_ | name)
  · exact .pure
  · exact .pure

theorem nests_fieldPattern (nesting : rules.Nesting) : Nests d d ahead (fieldPattern rules) := by
  apply Nests.expectIdent.bind
  intro name
  apply Nests.ate_ite rfl
  · apply Nests.skipNewlines.bind
    intro _
    apply nesting.pattern.bind
    intro p
    split
    · apply Nests.ite
      · exact fun _ => .fail
      · exact fun _ => .pure
    · exact .pure
  · exact .pure

theorem nests_recordPattern (nesting : rules.Nesting) : Nests d d ahead (recordPattern rules) := by
  apply nests_recordHead.bind
  intro found
  apply Nests.eat_bind rfl rfl rfl
  · intro opening
    apply Nests.bind (.closedListWithRest (nests_fieldPattern nesting) nests_restBinder)
    intro found
    apply Nests.closing_bind
    exact fun _ => .pure
  · exact Nests.place.bind fun _ => .pure

theorem nests_arrayPattern (nesting : rules.Nesting)
    (seen : ∀ tokens, ahead tokens → Showing 0 .lbracket tokens) :
    Nests d d ahead (arrayPattern rules) := by
  apply (Nests.next seen rfl).bind
  intro opening
  apply Nests.bind (.closedListWithRest nesting.pattern nests_restBinder)
  intro found
  apply (Nests.expect rfl).bind
  exact fun _ => .pure

theorem isInner_of_number {k : Kind} (number : k = .int ∨ k = .float) : isInner k = true := by
  obtain rfl | rfl := number
  · rfl
  · rfl

theorem nests_negativePattern (seen : ∀ tokens, ahead tokens → Showing 0 .minus tokens) :
    Nests d d ahead negativePattern := by
  apply (Nests.next seen rfl).bind
  intro minus
  apply Nests.kind_bind
  intro k
  apply Nests.ite
  · intro number
    apply (Nests.next_seen (isInner_of_number number)).bind
    exact fun _ => nests_literalPattern
  · exact fun _ => .unexpected

theorem isInner_of_isKind {k : Kind} (h : Literal.isKind k = true) : isInner k = true := by
  cases k <;> first | rfl | cases h

theorem nests_pattern (nesting : rules.Nesting) : Nests d d ahead (pattern rules) := by
  apply Nests.kind_bind
  intro k
  apply Nests.ite
  · intro literal
    apply (Nests.next_seen (isInner_of_isKind literal)).bind
    exact fun _ => nests_literalPattern
  intro _
  split
  · exact nests_negativePattern fun _ here => here.2
  · apply Nests.kindAt_bind
    intro after
    apply Nests.ite
    · exact fun _ => nests_recordPattern nesting
    · intro _
      apply Nests.expectIdent.bind
      exact fun _ => .pure
  · exact nests_recordPattern nesting
  · exact nests_arrayPattern nesting fun _ here => here.2
  · exact .unexpected

theorem nests_fieldDestructuring (nesting : rules.Nesting) :
    Nests d d ahead (fieldDestructuring rules) := by
  apply Nests.expectIdent.bind
  intro name
  apply Nests.ate_ite rfl
  · apply Nests.skipNewlines.bind
    intro _
    apply nesting.destructuring.bind
    intro d
    split
    · apply Nests.ite
      · exact fun _ => .fail
      · exact fun _ => .pure
    · exact .pure
  · exact .pure

theorem nests_recordDestructuring (nesting : rules.Nesting) :
    Nests d d ahead (recordDestructuring rules) := by
  apply nests_recordHead.bind
  intro found
  apply Nests.opening_bind
  intro opening
  apply Nests.bind (.closedListWithRest (nests_fieldDestructuring nesting) nests_restBinder)
  intro found
  apply Nests.closing_bind
  exact fun _ => .pure

theorem nests_destructuring (nesting : rules.Nesting) :
    Nests d d ahead (destructuring rules) := by
  apply Nests.kind_bind
  intro k
  split
  · apply Nests.kindAt_bind
    intro after
    apply Nests.ite
    · exact fun _ => nests_recordDestructuring nesting
    · intro _
      apply Nests.expectIdent.bind
      exact fun _ => .pure
  · exact nests_recordDestructuring nesting
  · exact .unexpected

end Frontend.Grammar
