import Frontend.Tree.Node

/-!
What a node stores. The data of a form is made of lists, pairs and options of names, numbers, spans
and other nodes; which nodes are in it follows from its type alone. The children of a node are the
nodes stored in its fields, all of them and in the order of the fields. So routes through what is
stored lead to every node of a tree.
-/
namespace Frontend

/-- Data with nodes stored in it, in order. -/
class Stores (α : Type) where
  nodes : α → List Node

open Stores

section Plain

instance : Stores String := ⟨fun _ => []⟩

instance : Stores Nat := ⟨fun _ => []⟩

instance : Stores Int := ⟨fun _ => []⟩

instance : Stores Bool := ⟨fun _ => []⟩

instance : Stores Binary64 := ⟨fun _ => []⟩

instance : Stores Position := ⟨fun _ => []⟩

instance : Stores Span := ⟨fun _ => []⟩

instance : Stores UnaryOp := ⟨fun _ => []⟩

instance : Stores BinaryOp := ⟨fun _ => []⟩

end Plain

section Nodes

instance : Stores TypeExpr := ⟨fun t => [.type t]⟩

instance : Stores Pattern := ⟨fun p => [.pattern p]⟩

instance : Stores Destructuring := ⟨fun d => [.destructuring d]⟩

instance : Stores Stmt := ⟨fun s => [.stmt s]⟩

instance : Stores Expr := ⟨fun e => [.expr e]⟩

instance : Stores Toplevel := ⟨fun t => [.toplevel t]⟩

end Nodes

section Compound

variable {α β : Type} [Stores α] [Stores β]

instance : Stores (Option α) := ⟨fun x => x.elim [] nodes⟩

instance : Stores (List α) := ⟨fun xs => xs.flatMap nodes⟩

instance : Stores (α × β) := ⟨fun p => nodes p.1 ++ nodes p.2⟩

instance : Stores RecordHead := ⟨fun h => nodes (h.name, h.case)⟩

instance : Stores Param := ⟨fun p => nodes (p.name, p.type)⟩

end Compound

section Fields

/-- The nodes in the fields of a type. -/
def TypeForm.stored : TypeForm → List Node
  | .named name => nodes name
  | .variable name => nodes name
  | .instantiate name args => nodes (name, args)
  | .record fields => nodes fields
  | .tuple elems => nodes elems
  | .function params result => nodes (params, result)
  | .case name member => nodes (name, member)
  | .typeOf value => nodes value

/-- The nodes in the fields of a pattern. -/
def Pattern.stored : Pattern → List Node
  | .int span value => nodes (span, value)
  | .uint span value => nodes (span, value)
  | .bool span value => nodes (span, value)
  | .string span value => nodes (span, value)
  | .float span value => nodes (span, value)
  | .record span head fields others => nodes (span, head, fields, others)
  | .variable span name => nodes (span, name)
  | .array span elems others => nodes (span, elems, others)
  | .rest span name => nodes (span, name)

/-- The nodes in the fields of a destructuring. -/
def Destructuring.stored : Destructuring → List Node
  | .variable span name => nodes (span, name)
  | .record span head fields others => nodes (span, head, fields, others)
  | .rest span name => nodes (span, name)

/-- The nodes in the fields of a statement. -/
def StmtForm.stored : StmtForm → List Node
  | .declare mutable targets values => nodes (mutable, targets, values)
  | .assign names values => nodes (names, values)
  | .assignIndex target place e => nodes (target, place, e)
  | .ret values => nodes values
  | .ifThen cond thenBlock elseBlock => nodes (cond, thenBlock, elseBlock)
  | .switch cases elseBlock => nodes (cases, elseBlock)
  | .matchWith subject arms elseBlock => nodes (subject, arms, elseBlock)
  | .forEach target range body => nodes (target, range, body)
  | .whileTrue cond body => nodes (cond, body)
  | .value e => nodes e

/-- The nodes in the fields of an expression. -/
def ExprForm.stored : ExprForm → List Node
  | .int value => nodes value
  | .uint value => nodes value
  | .float value => nodes value
  | .bool value => nodes value
  | .string value => nodes value
  | .variable name => nodes name
  | .array elems => nodes elems
  | .dict elems => nodes elems
  | .unary op operand => nodes (op, operand)
  | .binary op lhs rhs => nodes (op, lhs, rhs)
  | .seq stmts last => nodes (stmts, last)
  | .ifThen cond thenValue elseValue => nodes (cond, thenValue, elseValue)
  | .switch cases elseValue => nodes (cases, elseValue)
  | .matchWith subject arms elseValue => nodes (subject, arms, elseValue)
  | .coerce value type => nodes (value, type)
  | .index target place => nodes (target, place)
  | .field target name => nodes (target, name)
  | .record name fields => nodes (name, fields)
  | .tuple name elems => nodes (name, elems)
  | .call callee args doBlock => nodes (callee, args, doBlock)
  | .callNamed callee args doBlock => nodes (callee, args, doBlock)
  | .lambda isDoBlock params body => nodes (isDoBlock, params, body)

/-- The nodes in the fields of a declaration. -/
def Toplevel.stored : Toplevel → List Node
  | .typedef t => nodes (t.start, t.name, t.type)
  | .enum e => nodes (e.span, e.name, e.cases)
  | .function f => nodes (f.span, f.name, f.params, f.result, f.body)
  | .importing i => nodes (i.span, i.relative, i.parents, i.imported)

end Fields

namespace Node

/-- The nodes in the fields of a node. -/
def stored : Node → List Node
  | .file decls => nodes decls
  | .toplevel t => t.stored
  | .type t => nodes t.span ++ t.form.stored
  | .pattern p => p.stored
  | .destructuring d => d.stored
  | .stmt s => nodes s.span ++ s.form.stored
  | .expr e => nodes e.span ++ e.form.stored

section Children

variable {α : Type}

theorem maybe_eq_elim (node : α → Node) (x : Option α) :
    maybe node x = x.elim [] fun a => [node a] := by
  cases x <;> rfl

theorem elim_none (x : Option α) : (x.elim [] fun _ => []) = ([] : List Node) := by
  cases x <;> rfl

theorem flatMap_none (xs : List α) : (xs.flatMap fun _ => []) = ([] : List Node) := by simp

end Children

/-- Nothing that is stored in a node is left out of its children, and nothing comes in. -/
theorem children_eq_stored (n : Node) : n.children = n.stored := by
  cases n with
  | file decls => simp [children, stored, nodes, List.map_eq_flatMap]
  | toplevel t =>
    cases t <;> simp [children, stored, nodes, ofToplevel, ofParams, Toplevel.stored, maybe_eq_elim,
      flatMap_none, List.map_eq_flatMap]
  | type t =>
    obtain ⟨span, form⟩ := t
    cases form <;> simp [children, stored, nodes, ofType, TypeForm.stored, List.map_eq_flatMap]
  | pattern p =>
    cases p <;> simp [children, stored, nodes, ofPattern, Pattern.stored, maybe_eq_elim, elim_none,
      List.map_eq_flatMap]
  | destructuring d =>
    cases d <;> simp [children, stored, nodes, ofDestructuring, Destructuring.stored, maybe_eq_elim,
      elim_none]
  | stmt s =>
    obtain ⟨span, form⟩ := s
    cases form <;> simp [children, stored, nodes, ofStmt, StmtForm.stored, flatMap_none,
      List.map_eq_flatMap]
  | expr e =>
    obtain ⟨span, form⟩ := e
    cases form <;> simp [children, stored, nodes, ofExpr, ofParams, ExprForm.stored, maybe_eq_elim,
      elim_none, List.map_eq_flatMap]

/-- A way down a tree: at each node, which of the nodes stored in it comes next. -/
abbrev Route := List Nat

/-- The node that a route leads to. -/
def at? : Node → Route → Option Node
  | n, [] => some n
  | n, k :: r => n.stored[k]?.bind fun m => m.at? r

/-- A route that no skipped node stands on, but perhaps at its end. -/
def Open (skip : Node → Bool) (n : Node) (r : Route) : Prop :=
  ∀ q m, q <+: r → q ≠ r → n.at? q = some m → skip m = false

end Node

end Frontend
