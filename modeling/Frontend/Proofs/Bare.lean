import Frontend.Tree.Basic

/-!
Trees without their spans. Two trees are equal up to the places where they stand when they are equal
without them.
-/
namespace Frontend

mutual

/-- A destructuring with no trace of where it stands. -/
def Destructuring.bare : Destructuring → Destructuring
  | .variable _ name => .variable default name
  | .record _ head fields others => .record default head (bareFields fields) (bareOption others)
  | .rest _ name => .rest default name

def Destructuring.bareOption : Option Destructuring → Option Destructuring
  | none => none
  | some d => some d.bare

def Destructuring.bareFields :
    List (String × Option Destructuring) → List (String × Option Destructuring)
  | [] => []
  | (name, d) :: more => (name, bareOption d) :: bareFields more

end

mutual

/-- A pattern with no trace of where it stands. -/
def Pattern.bare : Pattern → Pattern
  | .int _ value => .int default value
  | .uint _ value => .uint default value
  | .bool _ value => .bool default value
  | .string _ value => .string default value
  | .float _ value => .float default value
  | .record _ head fields others => .record default head (bareFields fields) (bareOption others)
  | .variable _ name => .variable default name
  | .array _ elems others => .array default (bareAll elems) (bareOption others)
  | .rest _ name => .rest default name

def Pattern.bareOption : Option Pattern → Option Pattern
  | none => none
  | some p => some p.bare

def Pattern.bareFields : List (String × Option Pattern) → List (String × Option Pattern)
  | [] => []
  | (name, p) :: more => (name, bareOption p) :: bareFields more

def Pattern.bareAll : List Pattern → List Pattern
  | [] => []
  | p :: more => p.bare :: bareAll more

end

mutual

/-- A type with no trace of where it stands. -/
def TypeExpr.bare : TypeExpr → TypeExpr
  | ⟨_, .named name⟩ => ⟨default, .named name⟩
  | ⟨_, .variable name⟩ => ⟨default, .variable name⟩
  | ⟨_, .instantiate name args⟩ => ⟨default, .instantiate name (TypeExpr.bareAll args)⟩
  | ⟨_, .record fields⟩ => ⟨default, .record (TypeExpr.bareFields fields)⟩
  | ⟨_, .tuple elems⟩ => ⟨default, .tuple (TypeExpr.bareAll elems)⟩
  | ⟨_, .function params result⟩ => ⟨default, .function (TypeExpr.bareAll params) result.bare⟩
  | ⟨_, .case name case⟩ => ⟨default, .case name case⟩
  | ⟨_, .typeOf value⟩ => ⟨default, .typeOf value.bare⟩

def TypeExpr.bareAll : List TypeExpr → List TypeExpr
  | [] => []
  | t :: more => t.bare :: TypeExpr.bareAll more

def TypeExpr.bareFields : List (String × TypeExpr) → List (String × TypeExpr)
  | [] => []
  | (name, t) :: more => (name, t.bare) :: TypeExpr.bareFields more

def TypeExpr.bareOption : Option TypeExpr → Option TypeExpr
  | none => none
  | some t => some t.bare

/-- A parameter whose type has no trace of where it stands. -/
def Param.bare : Param → Param
  | ⟨name, type⟩ => ⟨name, TypeExpr.bareOption type⟩

def Param.bareAll : List Param → List Param
  | [] => []
  | p :: more => p.bare :: Param.bareAll more

/-- A statement with no trace of where it stands. -/
def Stmt.bare : Stmt → Stmt
  | ⟨_, .declare mutable targets values⟩ =>
    ⟨default, .declare mutable (targets.map Destructuring.bare) (Expr.bareAll values)⟩
  | ⟨_, .assign names values⟩ => ⟨default, .assign names (Expr.bareAll values)⟩
  | ⟨_, .assignIndex target index value⟩ =>
    ⟨default, .assignIndex target.bare index.bare value.bare⟩
  | ⟨_, .ret values⟩ => ⟨default, .ret (Expr.bareAll values)⟩
  | ⟨_, .ifThen cond thenBlock elseBlock⟩ =>
    ⟨default, .ifThen cond.bare (Stmt.bareAll thenBlock) (Stmt.bareAll elseBlock)⟩
  | ⟨_, .switch cases elseBlock⟩ =>
    ⟨default, .switch (Stmt.bareCases cases) (Stmt.bareAll elseBlock)⟩
  | ⟨_, .matchWith subject arms elseBlock⟩ =>
    ⟨default, .matchWith subject.bare (Stmt.bareArms arms) (Stmt.bareAll elseBlock)⟩
  | ⟨_, .forEach target range body⟩ =>
    ⟨default, .forEach target.bare range.bare (Stmt.bareAll body)⟩
  | ⟨_, .whileTrue cond body⟩ => ⟨default, .whileTrue cond.bare (Stmt.bareAll body)⟩
  | ⟨_, .value e⟩ => ⟨default, .value e.bare⟩

def Stmt.bareAll : List Stmt → List Stmt
  | [] => []
  | s :: more => s.bare :: Stmt.bareAll more

def Stmt.bareCases : List (Expr × List Stmt) → List (Expr × List Stmt)
  | [] => []
  | (cond, block) :: more => (cond.bare, Stmt.bareAll block) :: Stmt.bareCases more

def Stmt.bareArms : List (Pattern × List Stmt) → List (Pattern × List Stmt)
  | [] => []
  | (p, block) :: more => (p.bare, Stmt.bareAll block) :: Stmt.bareArms more

/-- An expression with no trace of where it stands. -/
def Expr.bare : Expr → Expr
  | ⟨_, .int value⟩ => ⟨default, .int value⟩
  | ⟨_, .uint value⟩ => ⟨default, .uint value⟩
  | ⟨_, .float value⟩ => ⟨default, .float value⟩
  | ⟨_, .bool value⟩ => ⟨default, .bool value⟩
  | ⟨_, .string value⟩ => ⟨default, .string value⟩
  | ⟨_, .variable name⟩ => ⟨default, .variable name⟩
  | ⟨_, .array elems⟩ => ⟨default, .array (Expr.bareAll elems)⟩
  | ⟨_, .dict elems⟩ => ⟨default, .dict (Expr.barePairs elems)⟩
  | ⟨_, .unary op operand⟩ => ⟨default, .unary op operand.bare⟩
  | ⟨_, .binary op lhs rhs⟩ => ⟨default, .binary op lhs.bare rhs.bare⟩
  | ⟨_, .seq stmts last⟩ => ⟨default, .seq (Stmt.bareAll stmts) last.bare⟩
  | ⟨_, .ifThen cond thenValue elseValue⟩ =>
    ⟨default, .ifThen cond.bare thenValue.bare elseValue.bare⟩
  | ⟨_, .switch cases elseValue⟩ => ⟨default, .switch (Expr.barePairs cases) elseValue.bare⟩
  | ⟨_, .matchWith subject arms elseValue⟩ =>
    ⟨default, .matchWith subject.bare (Expr.bareArms arms) elseValue.bare⟩
  | ⟨_, .coerce value type⟩ => ⟨default, .coerce value.bare type.bare⟩
  | ⟨_, .index target index⟩ => ⟨default, .index target.bare index.bare⟩
  | ⟨_, .field target name⟩ => ⟨default, .field target.bare name⟩
  | ⟨_, .record name fields⟩ => ⟨default, .record name (Expr.bareFields fields)⟩
  | ⟨_, .tuple name elems⟩ => ⟨default, .tuple name (Expr.bareAll elems)⟩
  | ⟨_, .call callee args doBlock⟩ =>
    ⟨default, .call callee.bare (Expr.bareAll args) (Expr.bareOption doBlock)⟩
  | ⟨_, .callNamed callee args doBlock⟩ =>
    ⟨default, .callNamed callee.bare (Expr.bareFields args) (Expr.bareOption doBlock)⟩
  | ⟨_, .lambda isDoBlock params body⟩ =>
    ⟨default, .lambda isDoBlock (Param.bareAll params) body.bare⟩

def Expr.bareAll : List Expr → List Expr
  | [] => []
  | e :: more => e.bare :: Expr.bareAll more

def Expr.barePairs : List (Expr × Expr) → List (Expr × Expr)
  | [] => []
  | (a, b) :: more => (a.bare, b.bare) :: Expr.barePairs more

def Expr.bareArms : List (Pattern × Expr) → List (Pattern × Expr)
  | [] => []
  | (p, e) :: more => (p.bare, e.bare) :: Expr.bareArms more

def Expr.bareFields : List (String × Expr) → List (String × Expr)
  | [] => []
  | (name, e) :: more => (name, e.bare) :: Expr.bareFields more

def Expr.bareOption : Option Expr → Option Expr
  | none => none
  | some e => some e.bare

end

/-- A declaration with no trace of where it stands. -/
def Toplevel.bare : Toplevel → Toplevel
  | .typedef t => .typedef ⟨default, t.name, t.type.bare⟩
  | .enum e => .enum ⟨default, e.name, e.cases.map (Prod.map id (Option.map TypeExpr.bare))⟩
  | .function f =>
    .function ⟨default, f.name, f.params.map Param.bare, f.result.map TypeExpr.bare,
      f.body.map Stmt.bare⟩
  | .importing i => .importing { i with span := default }

section Lists

/-- A function on lists that goes through the items one by one. -/
theorem eq_map_of_cons {α β : Type} {f : α → β} {g : List α → List β} (nil : g [] = [])
    (cons : ∀ a list, g (a :: list) = f a :: g list) (list : List α) : g list = list.map f := by
  induction list with
  | nil => exact nil
  | cons a list ih => rw [cons, ih, List.map_cons]

@[simp] theorem Destructuring.bareOption_eq (d : Option Destructuring) :
    bareOption d = d.map bare := by
  cases d <;> rfl

@[simp] theorem Destructuring.bareFields_eq (fields : List (String × Option Destructuring)) :
    bareFields fields = fields.map (Prod.map id (Option.map bare)) :=
  eq_map_of_cons rfl (fun (_, _) _ => by simp [bareFields]) fields

@[simp] theorem Pattern.bareOption_eq (p : Option Pattern) : bareOption p = p.map bare := by
  cases p <;> rfl

@[simp] theorem Pattern.bareFields_eq (fields : List (String × Option Pattern)) :
    bareFields fields = fields.map (Prod.map id (Option.map bare)) :=
  eq_map_of_cons rfl (fun (_, _) _ => by simp [bareFields]) fields

@[simp] theorem Pattern.bareAll_eq (elems : List Pattern) : bareAll elems = elems.map bare :=
  eq_map_of_cons rfl (fun _ _ => rfl) elems

@[simp] theorem TypeExpr.bareAll_eq (types : List TypeExpr) : bareAll types = types.map bare :=
  eq_map_of_cons rfl (fun _ _ => rfl) types

@[simp] theorem TypeExpr.bareFields_eq (fields : List (String × TypeExpr)) :
    bareFields fields = fields.map (Prod.map id bare) :=
  eq_map_of_cons rfl (fun (_, _) _ => rfl) fields

@[simp] theorem TypeExpr.bareOption_eq (t : Option TypeExpr) : bareOption t = t.map bare := by
  cases t <;> rfl

@[simp] theorem Param.bareAll_eq (params : List Param) : bareAll params = params.map bare :=
  eq_map_of_cons rfl (fun _ _ => rfl) params

@[simp] theorem Stmt.bareAll_eq (stmts : List Stmt) : bareAll stmts = stmts.map bare :=
  eq_map_of_cons rfl (fun _ _ => rfl) stmts

@[simp] theorem Stmt.bareCases_eq (cases : List (Expr × List Stmt)) :
    bareCases cases = cases.map (Prod.map Expr.bare (List.map bare)) :=
  eq_map_of_cons rfl (fun (_, _) _ => by simp [bareCases]) cases

@[simp] theorem Stmt.bareArms_eq (arms : List (Pattern × List Stmt)) :
    bareArms arms = arms.map (Prod.map Pattern.bare (List.map bare)) :=
  eq_map_of_cons rfl (fun (_, _) _ => by simp [bareArms]) arms

@[simp] theorem Expr.bareAll_eq (elems : List Expr) : bareAll elems = elems.map bare :=
  eq_map_of_cons rfl (fun _ _ => rfl) elems

@[simp] theorem Expr.barePairs_eq (pairs : List (Expr × Expr)) :
    barePairs pairs = pairs.map (Prod.map bare bare) :=
  eq_map_of_cons rfl (fun (_, _) _ => rfl) pairs

@[simp] theorem Expr.bareArms_eq (arms : List (Pattern × Expr)) :
    bareArms arms = arms.map (Prod.map Pattern.bare bare) :=
  eq_map_of_cons rfl (fun (_, _) _ => rfl) arms

@[simp] theorem Expr.bareFields_eq (fields : List (String × Expr)) :
    bareFields fields = fields.map (Prod.map id bare) :=
  eq_map_of_cons rfl (fun (_, _) _ => rfl) fields

@[simp] theorem Expr.bareOption_eq (e : Option Expr) : bareOption e = e.map bare := by
  cases e <;> rfl

end Lists

end Frontend
