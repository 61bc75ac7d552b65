import Frontend.Number.Binary64
import Frontend.Position

/-!
Syntax trees. Every node of types, patterns, destructurings, statements and expressions is a span
with a form; the five families refer to each other. Toplevel declarations stand above them.

Trees say more than the grammar allows: nothing here keeps a rest pattern out of a place that is
no rest, for instance. Trees that the grammar yields are narrower.
-/
namespace Frontend

/-- An operator in front of its operand. -/
inductive UnaryOp where
  | neg | pos | not
deriving DecidableEq, Repr

/-- An operator between its operands. -/
inductive BinaryOp where
  | add | sub | mul | div | mod | eq | notEq | less | lessEq | greater | greaterEq | and | or
deriving DecidableEq, Repr

/-- What may stand in front of the braces of a record pattern: a name, or a name and one of its
cases. -/
structure RecordHead where
  name : Option String
  case : Option String
deriving DecidableEq, Repr

/-- What a `let`, a `var` or a `for` binds. -/
inductive Destructuring where
  | variable (span : Span) (name : String)
  | record (span : Span) (head : RecordHead) (fields : List (String × Option Destructuring))
      (rest : Option Destructuring)
  | rest (span : Span) (name : Option String)

/-- A pattern of a `match` arm. A field without a pattern binds a variable of its own name. -/
inductive Pattern where
  | int (span : Span) (value : Int)
  | uint (span : Span) (value : Nat)
  | bool (span : Span) (value : Bool)
  | string (span : Span) (value : String)
  | float (span : Span) (value : Binary64)
  | record (span : Span) (head : RecordHead) (fields : List (String × Option Pattern))
      (rest : Option Pattern)
  | variable (span : Span) (name : String)
  | array (span : Span) (elems : List Pattern) (rest : Option Pattern)
  | rest (span : Span) (name : Option String)

mutual

/-- A type. -/
structure TypeExpr where
  span : Span
  form : TypeForm

/-- What a type is. -/
inductive TypeForm where
  | named (name : String)
  | variable (name : String)
  | instantiate (name : String) (args : List TypeExpr)
  | record (fields : List (String × TypeExpr))
  | tuple (elems : List TypeExpr)
  | function (params : List TypeExpr) (result : TypeExpr)
  | case (name case : String)
  | typeOf (value : Expr)

/-- A parameter of a function, with its type if one is written. -/
structure Param where
  name : String
  type : Option TypeExpr

/-- A statement. -/
structure Stmt where
  span : Span
  form : StmtForm

/-- What a statement does. -/
inductive StmtForm where
  | declare (mutable : Bool) (targets : List Destructuring) (values : List Expr)
  | assign (names : List String) (values : List Expr)
  | assignIndex (target index value : Expr)
  | ret (values : List Expr)
  | ifThen (cond : Expr) (thenBlock elseBlock : List Stmt)
  | switch (cases : List (Expr × List Stmt)) (elseBlock : List Stmt)
  | matchWith (subject : Expr) (arms : List (Pattern × List Stmt)) (elseBlock : List Stmt)
  | forEach (target : Destructuring) (range : Expr) (body : List Stmt)
  | whileTrue (cond : Expr) (body : List Stmt)
  | value (expr : Expr)

/-- An expression. -/
structure Expr where
  span : Span
  form : ExprForm

/-- What an expression is. Statements in front of a value (`seq`) arise from blocks only. -/
inductive ExprForm where
  | int (value : Int)
  | uint (value : Nat)
  | float (value : Binary64)
  | bool (value : Bool)
  | string (value : String)
  | variable (name : String)
  | array (elems : List Expr)
  | dict (elems : List (Expr × Expr))
  | unary (op : UnaryOp) (operand : Expr)
  | binary (op : BinaryOp) (lhs rhs : Expr)
  | seq (stmts : List Stmt) (last : Expr)
  | ifThen (cond thenValue elseValue : Expr)
  | switch (cases : List (Expr × Expr)) (elseValue : Expr)
  | matchWith (subject : Expr) (arms : List (Pattern × Expr)) (elseValue : Expr)
  | coerce (value : Expr) (type : TypeExpr)
  | index (target index : Expr)
  | field (target : Expr) (name : String)
  | record (name : Option String) (fields : List (String × Expr))
  | tuple (name : Option String) (elems : List Expr)
  | call (callee : Expr) (args : List Expr) (doBlock : Option Expr)
  | callNamed (callee : Expr) (args : List (String × Expr)) (doBlock : Option Expr)
  | lambda (isDoBlock : Bool) (params : List Param) (body : Expr)

end

/-- `type Name T` -/
structure Typedef where
  start : Position
  name : String
  type : TypeExpr

/-- `type Name case A case B{x: T}`: the cases, each with the type of its payload. -/
structure EnumTypedef where
  span : Span
  name : String
  cases : List (String × Option TypeExpr)

/-- `func name(params): result … end` -/
structure Function where
  span : Span
  name : String
  params : List Param
  result : Option TypeExpr
  body : List Stmt

/-- `import a.b.{c, d}` has the parents `a`, `b` and imports `c`, `d`; a leading dot makes it
relative, and `*` alone imports everything. -/
structure Import where
  span : Span
  relative : Bool
  parents : List String
  imported : List String
deriving DecidableEq, Repr

namespace Import

/-- An import of everything. -/
def importsAll (i : Import) : Bool := i.imported = ["*"]

/-- The path of an import as it is written, without spaces. -/
def path (i : Import) : String :=
  let head := if i.relative then "." else ""
  let names := match i.imported with
    | [name] => name
    | names => "\x7b" ++ ",".intercalate names ++ "\x7d"
  if i.parents.isEmpty then head ++ names
  else head ++ ".".intercalate i.parents ++ "." ++ names

end Import

/-- A declaration of a file. -/
inductive Toplevel where
  | typedef (decl : Typedef)
  | enum (decl : EnumTypedef)
  | function (decl : Function)
  | importing (decl : Import)

/-- A declaration from its first word to its last. -/
def Toplevel.span : Toplevel → Span
  | .typedef t => ⟨t.start, t.type.span.stop⟩
  | .enum e => e.span
  | .function f => f.span
  | .importing i => i.span

/-- The imports among declarations, in order. -/
def Toplevel.imports (decls : List Toplevel) : List Import :=
  decls.filterMap fun
    | .importing i => some i
    | _ => none

/-- The functions among declarations, in order. -/
def Toplevel.functions (decls : List Toplevel) : List Function :=
  decls.filterMap fun
    | .function f => some f
    | _ => none

/-- A statement that is an expression, over the same span. -/
def Stmt.ofExpr (e : Expr) : Stmt := ⟨e.span, .value e⟩

end Frontend
