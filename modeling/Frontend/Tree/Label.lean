import Frontend.Number.Shortest
import Frontend.Tree.Basic

/-!
The label of each node: its kind, and what tells it from others of its kind without its children.
Error messages and listings of a tree show nodes by their labels.
-/
namespace Frontend

/-- An operator as it is written. -/
def UnaryOp.symbol : UnaryOp → String
  | .neg => "-"
  | .pos => "+"
  | .not => "!"

/-- An operator as it is written. -/
def BinaryOp.symbol : BinaryOp → String
  | .add => "+"
  | .sub => "-"
  | .mul => "*"
  | .div => "/"
  | .mod => "%"
  | .eq => "=="
  | .notEq => "!="
  | .less => "<"
  | .lessEq => "<="
  | .greater => ">"
  | .greaterEq => ">="
  | .and => "&&"
  | .or => "||"

namespace Label

/-- Names between commas. -/
def commas (names : List String) : String := ",".intercalate names

/-- Names between commas, in braces. -/
def braced (names : List String) : String := "\x7b" ++ commas names ++ "\x7d"

/-- A name in parentheses after the kind. -/
def withArg (kind arg : String) : String := s!"{kind} ({arg})"

/-- A count of children in parentheses after the kind. -/
def withCount (kind what : String) (n : Nat) : String := s!"{kind} ({what}: {n})"

/-- A kind with a name that may be missing. -/
def withOptional (kind : String) : Option String → String
  | some name => withArg kind name
  | none => kind

/-- A name that may be missing. -/
def orAnonym (name : Option String) : String := name.getD "anonym"

/-- A decimal number as listings show it. -/
def float (x : Binary64) : String := x.render .listing

end Label

open Label

/-- What stands in front of the braces, as a label shows it. -/
def RecordHead.label (h : RecordHead) : String :=
  match h.case with
  | some member => s!"{orAnonym h.name}::{member}"
  | none => orAnonym h.name

/-- The label of a destructuring. -/
def Destructuring.label : Destructuring → String
  | .variable _ name => withArg "VarDeclDestructuring" name
  | .record _ head fields _ => s!"RecordDestructuring {head.label}" ++ braced (fields.map (·.1))
  | .rest _ name => withOptional "RestDestructuring" name

/-- The label of a pattern. -/
def Pattern.label : Pattern → String
  | .int _ value => withArg "IntConstPattern" (toString value)
  | .uint _ value => withArg "UIntConstPattern" (toString value)
  | .bool _ value => withArg "BoolConstPattern" (toString value)
  | .string _ value => s!"StringConstPattern \"{value}\""
  | .float _ value => withArg "FloatConstPattern" (Label.float value)
  | .record _ head fields _ => s!"RecordPattern {head.label}" ++ braced (fields.map (·.1))
  | .variable _ name => withArg "VarDeclPattern" name
  | .array .. => "ArrayPattern"
  | .rest _ name => withOptional "RestPattern" name

/-- The label of a type. -/
def TypeForm.label : TypeForm → String
  | .named name => withArg "TypeRef" name
  | .variable name => withArg "TypeVar" name
  | .instantiate name _ => withArg "TypeInstantiate" name
  | .record fields => "RecordType " ++ braced (fields.map (·.1))
  | .tuple _ => "TupleType"
  | .function .. => "FunctionType"
  | .case name member => s!"EnumType ({name}::{member})"
  | .typeOf _ => "Typeof"

/-- The label of a statement. -/
def StmtForm.label : StmtForm → String
  | .declare mutable targets _ =>
    withCount (if mutable then "VarDecl var" else "VarDecl") "decls" targets.length
  | .assign names _ => withArg "VarAssign" (commas names)
  | .assignIndex .. => "IndexAssign"
  | .ret _ => "RetStmt"
  | .ifThen .. => "IfStmt"
  | .switch .. => "SwitchStmt"
  | .matchWith .. => "MatchStmt"
  | .forEach .. => "ForEachStmt"
  | .whileTrue .. => "WhileStmt"
  | .value _ => "ExprStmt"

/-- The label of an expression. -/
def ExprForm.label : ExprForm → String
  | .int value => withArg "IntLiteral" (toString value)
  | .uint value => withArg "UIntLiteral" (toString value)
  | .float value => withArg "FloatLiteral" (Label.float value)
  | .bool value => withArg "BoolLiteral" (toString value)
  | .string value => s!"StringLiteral \"{value}\""
  | .variable name => withArg "VarRef" name
  | .array elems => withCount "ArrayLiteral" "elems" elems.length
  | .dict elems => withCount "DictLiteral" "elems" elems.length
  | .unary op _ => withArg "UnaryExpr" op.symbol
  | .binary op _ _ => withArg "BinaryExpr" op.symbol
  | .seq .. => "SeqExpr"
  | .ifThen .. => "IfExpr"
  | .switch .. => "SwitchExpr"
  | .matchWith .. => "MatchExpr"
  | .coerce .. => "CoerceExpr"
  | .index .. => "IndexAccess"
  | .field _ name => withArg "FieldAccess" name
  | .record name fields => s!"RecordLiteral {orAnonym name}" ++ braced (fields.map (·.1))
  | .tuple _ elems => withCount "TupleLiteral" "elems" elems.length
  | .call .. => "FuncCall"
  | .callNamed .. => "FuncCallNamed"
  | .lambda _ params _ => withArg "Lambda" (commas (params.map (·.name)))

/-- The label of a declaration. -/
def Toplevel.label : Toplevel → String
  | .typedef t => withArg "Typedef" t.name
  | .enum e => s!"EnumTypedef {e.name}({commas (e.cases.map (·.1))})"
  | .function f => s!"Function {f.name}({commas (f.params.map (·.name))})"
  | .importing i => withArg "Import" i.path

/-- The label of a file with its declarations. -/
def Toplevel.fileLabel (decls : List Toplevel) : String :=
  withCount "Program" "toplevels" decls.length

end Frontend
