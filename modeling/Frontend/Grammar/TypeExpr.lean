import Frontend.Grammar.Rules

/-!
Types: `T`, `'a`, `T{A, B}`, `E::C`, `{a: T}`, `{_: T}`, `(A) -> B` and `typeof(e)`.
-/
namespace Frontend.Grammar

open Frontend.Grammar.Parser

/-- A type that begins with a name. A name with an apostrophe is a type variable. -/
def namedType (rules : Rules) : Parser TypeExpr := do
  let name ← expectIdent "type name"
  if name.text.toList.head? = some '\'' then pure ⟨name.span, .variable name.text⟩
  else
    match ← kind with
    | .colonColon =>
      let _ ← next
      let member ← expectIdent "enum case name after '::'"
      pure ⟨name.span.through member.span, .case name.text member.text⟩
    | .lbrace =>
      let _ ← next
      let args ← closedList .rbrace fun _ => rules.typeExpr
      let close ← expect .rbrace "'\x7d' closing type arguments"
      pure ⟨name.span.through close.span, .instantiate name.text args⟩
    | _ => pure ⟨name.span, .named name.text⟩

/-- A field of a record type or a tuple type. -/
def typeField (rules : Rules) (fields : List (String × TypeExpr)) : Parser (String × TypeExpr) := do
  let name ← expectIdent "field name of record or tuple type"
  checkFieldName .type fields name
  let _ ← expect .colon "':' after field name"
  skipNewlines
  let type ← rules.typeExpr
  pure (name.text, type)

/-- A record type or a tuple type. -/
def recordOrTupleType (rules : Rules) : Parser TypeExpr := do
  let opening ← expect .lbrace "'\x7b'"
  let fields ← closedList .rbrace (typeField rules)
  let close ← expect .rbrace "'\x7d' closing record or tuple type"
  let form := if areUnnamed fields then .tuple (fields.map (·.2)) else .record fields
  pure ⟨opening.span.through close.span, form⟩

/-- A function type. -/
def functionType (rules : Rules) : Parser TypeExpr := do
  let opening ← next
  let params ← closedList .rparen fun _ => rules.typeExpr
  let _ ← expect .rparen "')' closing parameter types"
  let _ ← expect .arrow "'->' of function type"
  let result ← rules.typeExpr
  pure ⟨opening.span.through result.span, .function params result⟩

/-- The type of an expression. -/
def typeOf (rules : Rules) : Parser TypeExpr := do
  let word ← next
  let _ ← expect .lparen "'(' after 'typeof'"
  skipNewlines
  let value ← rules.expr
  skipNewlines
  let close ← expect .rparen "')' closing 'typeof'"
  pure ⟨word.span.through close.span, .typeOf value⟩

/-- A type. -/
def typeExpr (rules : Rules) : Parser TypeExpr := do
  match ← kind with
  | .ident => namedType rules
  | .lbrace => recordOrTupleType rules
  | .lparen => functionType rules
  | .typeofWord => typeOf rules
  | _ => unexpected "type"

end Frontend.Grammar
