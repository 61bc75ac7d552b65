import Frontend.Grammar.Parser
import Frontend.Tree.Basic

/-!
The rules of the grammar that refer to each other. A rule is written against a `Rules` record for
the rules it calls, and calls through the record only after it has taken a token of its own.
-/
namespace Frontend.Grammar

open Token (Kind)

/-- The rules that may be called from inside any rule. `binary k` reads an expression whose
operators outside of brackets have at least the binding power `k`. -/
structure Rules where
  binary : Nat → Parser Expr
  unary : Parser Expr
  typeExpr : Parser TypeExpr
  pattern : Parser Pattern
  destructuring : Parser Destructuring
  statement : Parser Stmt

namespace Rules

/-- Any expression. -/
def expr (rules : Rules) : Parser Expr := rules.binary 1

/-- One or more expressions between commas. -/
def exprList (rules : Rules) : Parser (List Expr) := Parser.commaList rules.expr

end Rules

/-- Checks that a field has a name, or has none, as the first field does. `fields` are the fields
before it, latest first; `_` stands for no name. -/
def checkFieldName {α : Type} (form : FieldSyntax) (fields : List (String × α)) (name : Token) :
    Parser Unit :=
  match fields.getLast? with
  | none => pure ()
  | some (first, _) =>
    let n := fields.length + 1
    if first = "_" ∧ name.text ≠ "_" then .fail (.across name.span (.namedInTuple form n))
    else if first ≠ "_" ∧ name.text = "_" then .fail (.across name.span (.unnamedInRecord form n))
    else pure ()

/-- Whether fields are those of a tuple, which have no names. -/
def areUnnamed {α : Type} (fields : List (String × α)) : Bool :=
  fields.head?.any (·.1 = "_")

end Frontend.Grammar
