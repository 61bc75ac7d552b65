import Frontend.Tree.Label

/-!
One view of all nodes of a tree. A node has a span, a label and children in source order; walks,
listings and statements about whole trees go through this view. Children are smaller than their
parent, which is what recursion over nodes rests on.
-/
namespace Frontend

/-- Any node: a file, one of its declarations, or a node of one of the five families below them. -/
inductive Node where
  | file (decls : List Toplevel)
  | toplevel (decl : Toplevel)
  | type (type : TypeExpr)
  | pattern (pattern : Pattern)
  | destructuring (target : Destructuring)
  | stmt (stmt : Stmt)
  | expr (expr : Expr)

/-- The span of a destructuring. -/
def Destructuring.span : Destructuring → Span
  | .variable span _ | .record span _ _ _ | .rest span _ => span

/-- The span of a pattern. -/
def Pattern.span : Pattern → Span
  | .int span _ | .uint span _ | .bool span _ | .string span _ | .float span _
  | .record span _ _ _ | .variable span _ | .array span _ _ | .rest span _ => span

/-- A file from its first declaration to its last; the start of the source when there is none. -/
def Toplevel.fileSpan (decls : List Toplevel) : Span :=
  match decls.head?, decls.getLast? with
  | some first, some last => first.span.through last.span
  | _, _ => .point .start

namespace Node

/-- The stretch of the source that a node stands for. -/
def span : Node → Span
  | file decls => Toplevel.fileSpan decls
  | toplevel t => t.span
  | type t => t.span
  | pattern p => p.span
  | destructuring d => d.span
  | stmt s => s.span
  | expr e => e.span

/-- The label of a node. -/
def label : Node → String
  | file decls => Toplevel.fileLabel decls
  | toplevel t => t.label
  | type t => t.form.label
  | pattern p => p.label
  | destructuring d => d.label
  | stmt s => s.form.label
  | expr e => e.form.label

/-- The node that is there, if one is. -/
def maybe {α : Type} (node : α → Node) (x : Option α) : List Node :=
  (x.map node).toList

/-- The children of a parameter list: the types that are written. -/
def ofParams (params : List Param) : List Node :=
  params.flatMap fun p => maybe type p.type

/-- The children of a declaration. -/
def ofToplevel : Toplevel → List Node
  | .typedef t => [type t.type]
  | .enum e => e.cases.flatMap fun c => maybe type c.2
  | .function f => ofParams f.params ++ maybe type f.result ++ f.body.map stmt
  | .importing _ => []

/-- The children of a type. -/
def ofType : TypeForm → List Node
  | .named _ | .variable _ | .case _ _ => []
  | .instantiate _ args => args.map type
  | .record fields => fields.map fun f => type f.2
  | .tuple elems => elems.map type
  | .function params result => params.map type ++ [type result]
  | .typeOf value => [expr value]

/-- The children of a pattern. -/
def ofPattern : Pattern → List Node
  | .record _ _ fields rest => fields.flatMap (fun f => maybe pattern f.2) ++ maybe pattern rest
  | .array _ elems rest => elems.map pattern ++ maybe pattern rest
  | _ => []

/-- The children of a destructuring. -/
def ofDestructuring : Destructuring → List Node
  | .record _ _ fields rest =>
    fields.flatMap (fun f => maybe destructuring f.2) ++ maybe destructuring rest
  | _ => []

/-- The children of a statement. -/
def ofStmt : StmtForm → List Node
  | .declare _ targets values => targets.map destructuring ++ values.map expr
  | .assign _ values => values.map expr
  | .assignIndex target index value => [expr target, expr index, expr value]
  | .ret values => values.map expr
  | .ifThen cond thenBlock elseBlock => expr cond :: (thenBlock.map stmt ++ elseBlock.map stmt)
  | .switch cases elseBlock =>
    cases.flatMap (fun c => expr c.1 :: c.2.map stmt) ++ elseBlock.map stmt
  | .matchWith subject arms elseBlock =>
    expr subject :: (arms.flatMap (fun a => pattern a.1 :: a.2.map stmt) ++ elseBlock.map stmt)
  | .forEach target range body => destructuring target :: expr range :: body.map stmt
  | .whileTrue cond body => expr cond :: body.map stmt
  | .value e => [expr e]

/-- The children of an expression. -/
def ofExpr : ExprForm → List Node
  | .int _ | .uint _ | .float _ | .bool _ | .string _ | .variable _ => []
  | .array elems => elems.map expr
  | .dict elems => elems.flatMap fun kv => [expr kv.1, expr kv.2]
  | .unary _ operand => [expr operand]
  | .binary _ lhs rhs => [expr lhs, expr rhs]
  | .seq stmts last => stmts.map stmt ++ [expr last]
  | .ifThen cond thenValue elseValue => [expr cond, expr thenValue, expr elseValue]
  | .switch cases elseValue => cases.flatMap (fun c => [expr c.1, expr c.2]) ++ [expr elseValue]
  | .matchWith subject arms elseValue =>
    expr subject :: (arms.flatMap (fun a => [pattern a.1, expr a.2]) ++ [expr elseValue])
  | .coerce value t => [expr value, type t]
  | .index target index => [expr target, expr index]
  | .field target _ => [expr target]
  | .record _ fields => fields.map fun f => expr f.2
  | .tuple _ elems => elems.map expr
  | .call callee args doBlock => expr callee :: (args.map expr ++ maybe expr doBlock)
  | .callNamed callee args doBlock =>
    expr callee :: (args.map (fun a => expr a.2) ++ maybe expr doBlock)
  | .lambda _ params body => ofParams params ++ [expr body]

/-- The children of a node, in source order. -/
def children : Node → List Node
  | file decls => decls.map toplevel
  | toplevel t => ofToplevel t
  | type t => ofType t.form
  | pattern p => ofPattern p
  | destructuring d => ofDestructuring d
  | stmt s => ofStmt s.form
  | expr e => ofExpr e.form

theorem mem_maybe {α : Type} {node : α → Node} {x : Option α} {m : Node} :
    m ∈ maybe node x ↔ ∃ a, x = some a ∧ m = node a := by
  cases x <;> simp [maybe]

/-- The size of a member is below that of its list, also through a pair and an option. -/
theorem sizeOf_snd_lt {α β : Type} [SizeOf α] [SizeOf β] {p : α × β} {ps : List (α × β)}
    (h : p ∈ ps) : sizeOf p.2 < sizeOf ps := by
  have := List.sizeOf_lt_of_mem h
  cases p
  simp only [Prod.mk.sizeOf_spec] at this ⊢
  omega

theorem sizeOf_fst_lt {α β : Type} [SizeOf α] [SizeOf β] {p : α × β} {ps : List (α × β)}
    (h : p ∈ ps) : sizeOf p.1 < sizeOf ps := by
  have := List.sizeOf_lt_of_mem h
  cases p
  simp only [Prod.mk.sizeOf_spec] at this ⊢
  omega

theorem sizeOf_lt_some {α : Type} [SizeOf α] {a : α} {x : Option α} (h : x = some a) :
    sizeOf a < sizeOf x := by
  subst h
  simp only [Option.some.sizeOf_spec]
  omega

theorem sizeOf_ofParams {params : List Param} {m : Node} (h : m ∈ ofParams params) :
    sizeOf m < 1 + sizeOf params := by
  obtain ⟨p, hp, hm⟩ := List.mem_flatMap.mp h
  obtain ⟨t, ht, rfl⟩ := mem_maybe.mp hm
  have small := List.sizeOf_lt_of_mem hp
  have := sizeOf_lt_some ht
  cases p
  simp only [Param.mk.sizeOf_spec, type.sizeOf_spec] at *
  omega

theorem sizeOf_ofToplevel {t : Toplevel} {m : Node} (h : m ∈ ofToplevel t) :
    sizeOf m < 1 + sizeOf t := by
  cases t with
  | typedef t =>
    cases t
    simp only [ofToplevel, List.mem_singleton] at h
    subst h
    simp
    omega
  | enum e =>
    obtain ⟨c, hc, hm⟩ := List.mem_flatMap.mp h
    obtain ⟨t, ht, rfl⟩ := mem_maybe.mp hm
    have := sizeOf_snd_lt hc
    have := sizeOf_lt_some ht
    cases e
    simp at *
    omega
  | function f =>
    cases f
    simp only [ofToplevel, List.mem_append, List.mem_map, mem_maybe] at h
    obtain (h | ⟨t, ht, rfl⟩) | ⟨s, hs, rfl⟩ := h
    · have := sizeOf_ofParams h
      simp
      omega
    · have := sizeOf_lt_some ht
      simp
      omega
    · have := List.sizeOf_lt_of_mem hs
      simp
      omega
  | importing _ => simp [ofToplevel] at h

theorem sizeOf_ofType {t : TypeForm} {m : Node} (h : m ∈ ofType t) :
    sizeOf m < 1 + sizeOf t := by
  cases t <;> simp only [ofType, List.mem_map, List.mem_append, List.mem_singleton,
    List.not_mem_nil] at h
  case instantiate =>
    obtain ⟨t, ht, rfl⟩ := h
    have := List.sizeOf_lt_of_mem ht
    simp
    omega
  case record =>
    obtain ⟨f, hf, rfl⟩ := h
    have := sizeOf_snd_lt hf
    simp
    omega
  case tuple =>
    obtain ⟨t, ht, rfl⟩ := h
    have := List.sizeOf_lt_of_mem ht
    simp
    omega
  case function =>
    obtain ⟨t, ht, rfl⟩ | rfl := h
    · have := List.sizeOf_lt_of_mem ht
      simp
      omega
    · simp only [type.sizeOf_spec, TypeForm.function.sizeOf_spec]
      omega
  case typeOf =>
    subst h
    simp

theorem sizeOf_ofPattern {p : Pattern} {m : Node} (h : m ∈ ofPattern p) :
    sizeOf m < 1 + sizeOf p := by
  cases p <;> simp only [ofPattern, List.mem_map, List.mem_append, List.mem_flatMap, mem_maybe,
    List.not_mem_nil] at h
  case record =>
    obtain ⟨f, hf, t, ht, rfl⟩ | ⟨r, hr, rfl⟩ := h
    · have := sizeOf_snd_lt hf
      have := sizeOf_lt_some ht
      simp
      omega
    · have := sizeOf_lt_some hr
      simp
      omega
  case array =>
    obtain ⟨e, he, rfl⟩ | ⟨r, hr, rfl⟩ := h
    · have := List.sizeOf_lt_of_mem he
      simp
      omega
    · have := sizeOf_lt_some hr
      simp
      omega

theorem sizeOf_ofDestructuring {d : Destructuring} {m : Node} (h : m ∈ ofDestructuring d) :
    sizeOf m < 1 + sizeOf d := by
  cases d <;> simp only [ofDestructuring, List.mem_append, List.mem_flatMap, mem_maybe,
    List.not_mem_nil] at h
  case record =>
    obtain ⟨f, hf, t, ht, rfl⟩ | ⟨r, hr, rfl⟩ := h
    · have := sizeOf_snd_lt hf
      have := sizeOf_lt_some ht
      simp
      omega
    · have := sizeOf_lt_some hr
      simp
      omega

theorem sizeOf_ofStmt {s : StmtForm} {m : Node} (h : m ∈ ofStmt s) :
    sizeOf m < 1 + sizeOf s := by
  cases s <;> simp only [ofStmt, List.mem_map, List.mem_append, List.mem_flatMap, List.mem_cons,
    List.not_mem_nil, or_false] at h
  case declare =>
    obtain ⟨x, hx, rfl⟩ | ⟨x, hx, rfl⟩ := h <;>
    · have := List.sizeOf_lt_of_mem hx
      simp
      omega
  case assign =>
    obtain ⟨x, hx, rfl⟩ := h
    have := List.sizeOf_lt_of_mem hx
    simp
    omega
  case assignIndex =>
    obtain rfl | rfl | rfl := h <;> simp <;> omega
  case ret =>
    obtain ⟨x, hx, rfl⟩ := h
    have := List.sizeOf_lt_of_mem hx
    simp
    omega
  case ifThen =>
    obtain rfl | ⟨x, hx, rfl⟩ | ⟨x, hx, rfl⟩ := h
    · simp
      omega
    all_goals
      have := List.sizeOf_lt_of_mem hx
      simp
      omega
  case switch =>
    obtain ⟨c, hc, rfl | ⟨x, hx, rfl⟩⟩ | ⟨x, hx, rfl⟩ := h
    · have := sizeOf_fst_lt hc
      simp
      omega
    · have := sizeOf_snd_lt hc
      have := List.sizeOf_lt_of_mem hx
      simp
      omega
    · have := List.sizeOf_lt_of_mem hx
      simp
      omega
  case matchWith =>
    obtain rfl | ⟨c, hc, rfl | ⟨x, hx, rfl⟩⟩ | ⟨x, hx, rfl⟩ := h
    · simp
      omega
    · have := sizeOf_fst_lt hc
      simp
      omega
    · have := sizeOf_snd_lt hc
      have := List.sizeOf_lt_of_mem hx
      simp
      omega
    · have := List.sizeOf_lt_of_mem hx
      simp
      omega
  case forEach =>
    obtain rfl | rfl | ⟨x, hx, rfl⟩ := h
    · simp
      omega
    · simp
      omega
    · have := List.sizeOf_lt_of_mem hx
      simp
      omega
  case whileTrue =>
    obtain rfl | ⟨x, hx, rfl⟩ := h
    · simp
      omega
    · have := List.sizeOf_lt_of_mem hx
      simp
      omega
  case value =>
    subst h
    simp

theorem sizeOf_ofExpr {e : ExprForm} {m : Node} (h : m ∈ ofExpr e) :
    sizeOf m < 1 + sizeOf e := by
  cases e <;> simp only [ofExpr, List.mem_map, List.mem_append, List.mem_flatMap, List.mem_cons,
    mem_maybe, List.not_mem_nil, or_false] at h
  case array =>
    obtain ⟨x, hx, rfl⟩ := h
    have := List.sizeOf_lt_of_mem hx
    simp
    omega
  case dict =>
    obtain ⟨c, hc, rfl | rfl⟩ := h
    · have := sizeOf_fst_lt hc
      simp
      omega
    · have := sizeOf_snd_lt hc
      simp
      omega
  case unary =>
    subst h
    simp only [expr.sizeOf_spec, ExprForm.unary.sizeOf_spec]
    omega
  case binary =>
    obtain rfl | rfl := h
    all_goals
      simp only [expr.sizeOf_spec, ExprForm.binary.sizeOf_spec]
      omega
  case seq =>
    obtain ⟨x, hx, rfl⟩ | rfl := h
    · have := List.sizeOf_lt_of_mem hx
      simp
      omega
    · simp only [expr.sizeOf_spec, ExprForm.seq.sizeOf_spec]
      omega
  case ifThen => obtain rfl | rfl | rfl := h <;> simp <;> omega
  case switch =>
    obtain ⟨c, hc, rfl | rfl⟩ | rfl := h
    · have := sizeOf_fst_lt hc
      simp
      omega
    · have := sizeOf_snd_lt hc
      simp
      omega
    · simp only [expr.sizeOf_spec, ExprForm.switch.sizeOf_spec]
      omega
  case matchWith =>
    obtain rfl | ⟨c, hc, rfl | rfl⟩ | rfl := h
    · simp
      omega
    · have := sizeOf_fst_lt hc
      simp
      omega
    · have := sizeOf_snd_lt hc
      simp
      omega
    · simp only [expr.sizeOf_spec, ExprForm.matchWith.sizeOf_spec]
      omega
  case coerce =>
    obtain rfl | rfl := h
    all_goals
      simp only [expr.sizeOf_spec, type.sizeOf_spec, ExprForm.coerce.sizeOf_spec]
      omega
  case index =>
    obtain rfl | rfl := h
    all_goals
      simp only [expr.sizeOf_spec, ExprForm.index.sizeOf_spec]
      omega
  case field => subst h; simp; omega
  case record =>
    obtain ⟨f, hf, rfl⟩ := h
    have := sizeOf_snd_lt hf
    simp
    omega
  case tuple =>
    obtain ⟨x, hx, rfl⟩ := h
    have := List.sizeOf_lt_of_mem hx
    simp
    omega
  case call =>
    obtain rfl | ⟨x, hx, rfl⟩ | ⟨x, hx, rfl⟩ := h
    · simp
      omega
    · have := List.sizeOf_lt_of_mem hx
      simp
      omega
    · have := sizeOf_lt_some hx
      simp
      omega
  case callNamed =>
    obtain rfl | ⟨f, hf, rfl⟩ | ⟨x, hx, rfl⟩ := h
    · simp
      omega
    · have := sizeOf_snd_lt hf
      simp
      omega
    · have := sizeOf_lt_some hx
      simp
      omega
  case lambda =>
    obtain hp | rfl := h
    · have := sizeOf_ofParams hp
      simp
      omega
    · simp only [expr.sizeOf_spec, ExprForm.lambda.sizeOf_spec]
      omega

/-- A child is smaller than its parent. -/
theorem sizeOf_child {n m : Node} (h : m ∈ n.children) : sizeOf m < sizeOf n := by
  cases n with
  | file decls =>
    obtain ⟨t, ht, rfl⟩ := List.mem_map.mp h
    have := List.sizeOf_lt_of_mem ht
    simp
    omega
  | toplevel t => exact sizeOf_ofToplevel h
  | type t =>
    have := sizeOf_ofType h
    cases t
    simp at *
    omega
  | pattern p => exact sizeOf_ofPattern h
  | destructuring d => exact sizeOf_ofDestructuring h
  | stmt s =>
    have := sizeOf_ofStmt h
    cases s
    simp at *
    omega
  | expr e =>
    have := sizeOf_ofExpr h
    cases e
    simp at *
    omega

end Node

end Frontend
