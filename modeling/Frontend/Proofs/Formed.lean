import Mathlib.Algebra.Group.Int.Defs
import Mathlib.Algebra.Group.Nat.Defs
import Frontend.Literal
import Frontend.Tree.Basic

/-!
The trees that the grammar yields. They are narrower than the data: statements in front of a value
stand only where a block was, rests only where a rest may be, and lists that the grammar wants to
hold something do. `fits` says which values of literals there may be.
-/
namespace Frontend

/-- Values that literals have: numbers are of 64 bits. -/
def Literal.Fits : Literal → Prop
  | .int value => -2 ^ 63 ≤ value ∧ value < 2 ^ 63
  | .uint value => value < 2 ^ 64
  | .float _ | .bool _ | .string _ => True

/-- The names of type variables begin with an apostrophe. -/
def NamesVariable (name : String) : Prop := name.toList.head? = some '\''

/-- A case stands behind the name of its enum only. -/
def RecordHead.Formed (head : RecordHead) : Prop := head.case.isSome → head.name.isSome

/-- What a field is matched with binds no variable of another name. -/
def Destructuring.KeepsName (d : Destructuring) : Prop :=
  ∀ span name, d = .variable span name → name = "_"

/-- What a field is matched with binds no variable of another name. -/
def Pattern.KeepsName (p : Pattern) : Prop :=
  ∀ span name, p = .variable span name → name = "_"

/-- A destructuring outside of a rest slot. -/
inductive Destructuring.Formed : Destructuring → Prop
  | variable {span : Span} {name : String} : Formed (.variable span name)
  | record {span : Span} {head : RecordHead} {fields : List (String × Option Destructuring)}
      {others : Option Destructuring}
      (head_formed : head.Formed)
      (fields_formed : ∀ f ∈ fields, ∀ d, f.2 = some d → Formed d)
      (fields_named : ∀ f ∈ fields, ∀ d, f.2 = some d → d.KeepsName)
      (others_rest : ∀ d, others = some d → ∃ span name, d = .rest span name) :
      Formed (.record span head fields others)

/-- A pattern outside of a rest slot. -/
inductive Pattern.Formed (fits : Literal → Prop) : Pattern → Prop
  | literal {span : Span} {value : Literal} (value_fits : fits value) :
      Formed fits (value.toPattern span)
  | variable {span : Span} {name : String} : Formed fits (.variable span name)
  | record {span : Span} {head : RecordHead} {fields : List (String × Option Pattern)}
      {others : Option Pattern}
      (head_formed : head.Formed)
      (fields_formed : ∀ f ∈ fields, ∀ p, f.2 = some p → Formed fits p)
      (fields_named : ∀ f ∈ fields, ∀ p, f.2 = some p → p.KeepsName)
      (others_rest : ∀ p, others = some p → ∃ span name, p = .rest span name) :
      Formed fits (.record span head fields others)
  | array {span : Span} {elems : List Pattern} {others : Option Pattern}
      (elems_formed : ∀ p ∈ elems, Formed fits p)
      (others_rest : ∀ p, others = some p → ∃ span name, p = .rest span name) :
      Formed fits (.array span elems others)

mutual

/-- A type. -/
inductive TypeExpr.Formed (fits : Literal → Prop) : TypeExpr → Prop
  | named {span : Span} {name : String} (plain : ¬ NamesVariable name) :
      TypeExpr.Formed fits ⟨span, .named name⟩
  | variable {span : Span} {name : String} (marked : NamesVariable name) :
      TypeExpr.Formed fits ⟨span, .variable name⟩
  | instantiate {span : Span} {name : String} {args : List TypeExpr}
      (plain : ¬ NamesVariable name) (args_formed : ∀ t ∈ args, TypeExpr.Formed fits t) :
      TypeExpr.Formed fits ⟨span, .instantiate name args⟩
  | record {span : Span} {fields : List (String × TypeExpr)}
      (named : ∀ f ∈ fields, f.1 ≠ "_") (fields_formed : ∀ f ∈ fields, TypeExpr.Formed fits f.2) :
      TypeExpr.Formed fits ⟨span, .record fields⟩
  | tuple {span : Span} {elems : List TypeExpr}
      (nonempty : elems ≠ []) (elems_formed : ∀ t ∈ elems, TypeExpr.Formed fits t) :
      TypeExpr.Formed fits ⟨span, .tuple elems⟩
  | function {span : Span} {params : List TypeExpr} {result : TypeExpr}
      (params_formed : ∀ t ∈ params, TypeExpr.Formed fits t)
      (result_formed : TypeExpr.Formed fits result) :
      TypeExpr.Formed fits ⟨span, .function params result⟩
  | case {span : Span} {name case : String} (plain : ¬ NamesVariable name) :
      TypeExpr.Formed fits ⟨span, .case name case⟩
  | typeOf {span : Span} {value : Expr} (value_formed : Expr.Formed fits value) :
      TypeExpr.Formed fits ⟨span, .typeOf value⟩

/-- A statement. -/
inductive Stmt.Formed (fits : Literal → Prop) : Stmt → Prop
  | declare {span : Span} {mutable : Bool} {targets : List Destructuring} {values : List Expr}
      (some_targets : targets ≠ []) (targets_formed : ∀ d ∈ targets, d.Formed)
      (some_values : values ≠ []) (values_formed : ∀ e ∈ values, Expr.Formed fits e) :
      Stmt.Formed fits ⟨span, .declare mutable targets values⟩
  | assign {span : Span} {names : List String} {values : List Expr}
      (some_names : names ≠ [])
      (some_values : values ≠ []) (values_formed : ∀ e ∈ values, Expr.Formed fits e) :
      Stmt.Formed fits ⟨span, .assign names values⟩
  | assignIndex {span : Span} {target index value : Expr}
      (target_formed : Expr.Formed fits target) (index_formed : Expr.Formed fits index)
      (value_formed : Expr.Formed fits value) :
      Stmt.Formed fits ⟨span, .assignIndex target index value⟩
  | ret {span : Span} {values : List Expr} (values_formed : ∀ e ∈ values, Expr.Formed fits e) :
      Stmt.Formed fits ⟨span, .ret values⟩
  | ifThen {span : Span} {cond : Expr} {thenBlock elseBlock : List Stmt}
      (cond_formed : Expr.Formed fits cond) (then_formed : ∀ s ∈ thenBlock, Stmt.Formed fits s)
      (else_formed : ∀ s ∈ elseBlock, Stmt.Formed fits s) :
      Stmt.Formed fits ⟨span, .ifThen cond thenBlock elseBlock⟩
  | switch {span : Span} {cases : List (Expr × List Stmt)} {elseBlock : List Stmt}
      (nonempty : cases ≠ []) (conds_formed : ∀ c ∈ cases, Expr.Formed fits c.1)
      (blocks_formed : ∀ c ∈ cases, ∀ s ∈ c.2, Stmt.Formed fits s)
      (else_formed : ∀ s ∈ elseBlock, Stmt.Formed fits s) :
      Stmt.Formed fits ⟨span, .switch cases elseBlock⟩
  | matchWith {span : Span} {subject : Expr} {arms : List (Pattern × List Stmt)}
      {elseBlock : List Stmt}
      (subject_formed : Expr.Formed fits subject) (nonempty : arms ≠ [])
      (patterns_formed : ∀ a ∈ arms, Pattern.Formed fits a.1)
      (blocks_formed : ∀ a ∈ arms, ∀ s ∈ a.2, Stmt.Formed fits s)
      (else_formed : ∀ s ∈ elseBlock, Stmt.Formed fits s) :
      Stmt.Formed fits ⟨span, .matchWith subject arms elseBlock⟩
  | forEach {span : Span} {target : Destructuring} {range : Expr} {body : List Stmt}
      (target_formed : target.Formed) (range_formed : Expr.Formed fits range)
      (body_formed : ∀ s ∈ body, Stmt.Formed fits s) :
      Stmt.Formed fits ⟨span, .forEach target range body⟩
  | whileTrue {span : Span} {cond : Expr} {body : List Stmt}
      (cond_formed : Expr.Formed fits cond) (body_formed : ∀ s ∈ body, Stmt.Formed fits s) :
      Stmt.Formed fits ⟨span, .whileTrue cond body⟩
  | value {span : Span} {e : Expr} (value_formed : Expr.Formed fits e) :
      Stmt.Formed fits ⟨span, .value e⟩

/-- An expression that may stand anywhere. It has no statements in front and is no `do` block. -/
inductive Expr.Formed (fits : Literal → Prop) : Expr → Prop
  | literal {span : Span} {value : Literal} (value_fits : fits value) :
      Expr.Formed fits ⟨span, value.toExpr⟩
  | variable {span : Span} {name : String} : Expr.Formed fits ⟨span, .variable name⟩
  | array {span : Span} {elems : List Expr} (elems_formed : ∀ e ∈ elems, Expr.Formed fits e) :
      Expr.Formed fits ⟨span, .array elems⟩
  | dict {span : Span} {elems : List (Expr × Expr)}
      (keys_formed : ∀ kv ∈ elems, Expr.Formed fits kv.1)
      (values_formed : ∀ kv ∈ elems, Expr.Formed fits kv.2) :
      Expr.Formed fits ⟨span, .dict elems⟩
  | unary {span : Span} {op : UnaryOp} {operand : Expr}
      (operand_formed : Expr.Formed fits operand) :
      Expr.Formed fits ⟨span, .unary op operand⟩
  | binary {span : Span} {op : BinaryOp} {lhs rhs : Expr}
      (lhs_formed : Expr.Formed fits lhs) (rhs_formed : Expr.Formed fits rhs) :
      Expr.Formed fits ⟨span, .binary op lhs rhs⟩
  | ifThen {span : Span} {cond thenValue elseValue : Expr}
      (cond_formed : Expr.Formed fits cond) (then_formed : Expr.IsBody fits thenValue)
      (else_formed : Expr.IsBody fits elseValue) :
      Expr.Formed fits ⟨span, .ifThen cond thenValue elseValue⟩
  | switch {span : Span} {cases : List (Expr × Expr)} {elseValue : Expr}
      (nonempty : cases ≠ []) (conds_formed : ∀ c ∈ cases, Expr.Formed fits c.1)
      (values_formed : ∀ c ∈ cases, Expr.IsBody fits c.2)
      (else_formed : Expr.IsBody fits elseValue) :
      Expr.Formed fits ⟨span, .switch cases elseValue⟩
  | matchWith {span : Span} {subject : Expr} {arms : List (Pattern × Expr)} {elseValue : Expr}
      (subject_formed : Expr.Formed fits subject) (nonempty : arms ≠ [])
      (patterns_formed : ∀ a ∈ arms, Pattern.Formed fits a.1)
      (values_formed : ∀ a ∈ arms, Expr.IsBody fits a.2)
      (else_formed : Expr.IsBody fits elseValue) :
      Expr.Formed fits ⟨span, .matchWith subject arms elseValue⟩
  | coerce {span : Span} {value : Expr} {type : TypeExpr}
      (value_formed : Expr.Formed fits value) (type_formed : TypeExpr.Formed fits type) :
      Expr.Formed fits ⟨span, .coerce value type⟩
  | index {span : Span} {target index : Expr}
      (target_formed : Expr.Formed fits target) (index_formed : Expr.Formed fits index) :
      Expr.Formed fits ⟨span, .index target index⟩
  | field {span : Span} {target : Expr} {name : String} (target_formed : Expr.Formed fits target) :
      Expr.Formed fits ⟨span, .field target name⟩
  | record {span : Span} {name : Option String} {fields : List (String × Expr)}
      (named : ∀ f ∈ fields, f.1 ≠ "_") (fields_formed : ∀ f ∈ fields, Expr.Formed fits f.2) :
      Expr.Formed fits ⟨span, .record name fields⟩
  | tuple {span : Span} {name : Option String} {elems : List Expr}
      (nonempty : elems ≠ []) (elems_formed : ∀ e ∈ elems, Expr.Formed fits e) :
      Expr.Formed fits ⟨span, .tuple name elems⟩
  | call {span : Span} {callee : Expr} {args : List Expr} {doBlock : Option Expr}
      (callee_formed : Expr.Formed fits callee) (args_formed : ∀ e ∈ args, Expr.Formed fits e)
      (block_formed : ∀ b, doBlock = some b → Expr.IsDoBlock fits b) :
      Expr.Formed fits ⟨span, .call callee args doBlock⟩
  | callNamed {span : Span} {callee : Expr} {args : List (String × Expr)} {doBlock : Option Expr}
      (callee_formed : Expr.Formed fits callee) (nonempty : args ≠ [])
      (args_formed : ∀ a ∈ args, Expr.Formed fits a.2)
      (block_formed : ∀ b, doBlock = some b → Expr.IsDoBlock fits b) :
      Expr.Formed fits ⟨span, .callNamed callee args doBlock⟩
  | lambda {span : Span} {params : List Param} {body : Expr}
      (untyped : ∀ p ∈ params, p.type = none) (body_formed : Expr.IsBody fits body) :
      Expr.Formed fits ⟨span, .lambda false params body⟩

/-- The value of a branch or the body of a lambda: an expression, with statements in front of it or
without. -/
inductive Expr.IsBody (fits : Literal → Prop) : Expr → Prop
  | plain {e : Expr} (formed : Expr.Formed fits e) : Expr.IsBody fits e
  | seq {span : Span} {stmts : List Stmt} {last : Expr}
      (nonempty : stmts ≠ []) (stmts_formed : ∀ s ∈ stmts, Stmt.Formed fits s)
      (last_formed : Expr.Formed fits last) :
      Expr.IsBody fits ⟨span, .seq stmts last⟩

/-- What follows the arguments of a call behind `do`. -/
inductive Expr.IsDoBlock (fits : Literal → Prop) : Expr → Prop
  | lambda {span : Span} {params : List Param} {body : Expr}
      (untyped : ∀ p ∈ params, p.type = none) (body_formed : Expr.IsBody fits body) :
      Expr.IsDoBlock fits ⟨span, .lambda true params body⟩

end

/-- A type with fields in braces. -/
def TypeExpr.IsPayload (t : TypeExpr) : Prop :=
  (∃ fields, t.form = .record fields) ∨ ∃ elems, t.form = .tuple elems

/-- A declaration. -/
inductive Toplevel.Formed (fits : Literal → Prop) : Toplevel → Prop
  | typedef {start : Position} {name : String} {type : TypeExpr} (type_formed : type.Formed fits) :
      Formed fits (.typedef ⟨start, name, type⟩)
  | enum {span : Span} {name : String} {cases : List (String × Option TypeExpr)}
      (nonempty : cases ≠ []) (payloads_formed : ∀ c ∈ cases, ∀ t, c.2 = some t → t.Formed fits)
      (payloads : ∀ c ∈ cases, ∀ t, c.2 = some t → t.IsPayload) :
      Formed fits (.enum ⟨span, name, cases⟩)
  | function {span : Span} {name : String} {params : List Param} {result : Option TypeExpr}
      {body : List Stmt} (params_formed : ∀ p ∈ params, ∀ t, p.type = some t → t.Formed fits)
      (result_formed : ∀ t, result = some t → t.Formed fits)
      (body_formed : ∀ s ∈ body, s.Formed fits) :
      Formed fits (.function ⟨span, name, params, result, body⟩)
  | importing {span : Span} {relative : Bool} {parents imported : List String}
      (some_parents : parents ≠ []) (some_imported : imported ≠ []) :
      Formed fits (.importing ⟨span, relative, parents, imported⟩)

/-- The declarations of a file. There is at least one. -/
structure Toplevel.FormedFile (fits : Literal → Prop) (decls : List Toplevel) : Prop where
  nonempty : decls ≠ []
  formed : ∀ d ∈ decls, d.Formed fits

end Frontend
