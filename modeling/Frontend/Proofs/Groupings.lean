import Frontend.Grammar.Expr
import Frontend.Proofs.Spelling

/-!
How operands and the operators between them are grouped. A grouping is `Bound` if no operator stands
above a left side that binds weaker, or above a right side that does not bind tighter. There is at
most one such grouping of a chain: its root is the last of the weakest operators, and what stands on
either side of the root is grouped in the same way.
-/
namespace Frontend

/-- How tight an operator binds. -/
def BinaryOp.power (op : BinaryOp) : Nat := ((Grammar.binaryOp? op.kind).map (·.2)).getD 0

namespace Grammar

open Token (Kind)

theorem binaryOp?_op_kind (op : BinaryOp) : binaryOp? op.kind = some (op, op.power) := by
  cases op <;> rfl

/-- A tree of operators over operands. An operand is one end of the tree, whatever it is made of. -/
inductive Grouping where
  | operand (e : Expr)
  | node (op : BinaryOp) (lhs rhs : Grouping)

namespace Grouping

/-- The expression that a grouping is. An operator spans what its sides span. -/
def toExpr : Grouping → Expr
  | .operand e => e
  | .node op lhs rhs =>
    ⟨lhs.toExpr.span.through rhs.toExpr.span, .binary op lhs.toExpr rhs.toExpr⟩

/-- The first operand. -/
def first : Grouping → Expr
  | .operand e => e
  | .node _ lhs _ => lhs.first

/-- The operators in order, each with the operand behind it. -/
def links : Grouping → List (BinaryOp × Expr)
  | .operand _ => []
  | .node op lhs rhs => lhs.links ++ (op, rhs.first) :: rhs.links

/-- The operator at the root, if there is one, is such. -/
def Root (such : BinaryOp → Prop) : Grouping → Prop
  | .operand _ => True
  | .node op _ _ => such op

/-- No operator has a left side that binds weaker, or a right side that does not bind tighter. -/
inductive Bound : Grouping → Prop
  | operand {e : Expr} : Bound (.operand e)
  | node {op : BinaryOp} {lhs rhs : Grouping} (left : lhs.Root (op.power ≤ ·.power))
      (right : rhs.Root (op.power < ·.power)) (lhs_bound : lhs.Bound) (rhs_bound : rhs.Bound) :
      Bound (.node op lhs rhs)

variable {g other : Grouping} {such such' : BinaryOp → Prop}

theorem Root.mono (h : g.Root such) (weaker : ∀ op, such op → such' op) : g.Root such' := by
  cases g with
  | operand e => trivial
  | node op lhs rhs => exact weaker op h

/-- No operator binds weaker than the one at the root. -/
theorem Bound.power_le (bound : g.Bound) {power : Nat} (root : g.Root (power ≤ ·.power)) :
    ∀ link ∈ g.links, power ≤ link.1.power := by
  induction bound with
  | operand => exact fun _ mem => absurd mem List.not_mem_nil
  | @node op lhs rhs left right _ _ ih_left ih_right =>
    have root : power ≤ op.power := root
    intro link mem
    obtain before | here | behind :
        link ∈ lhs.links ∨ link = (op, rhs.first) ∨ link ∈ rhs.links := by
      simpa [links] using mem
    · exact ih_left (left.mono fun _ => Nat.le_trans root) link before
    · rw [here]
      exact root
    · have right : rhs.Root (power ≤ ·.power) :=
        right.mono fun _ tighter => Nat.le_trans root (Nat.le_of_lt tighter)
      exact ih_right right link behind

/-- The last of the weakest links of a chain divides it in one way. -/
theorem weakest_unique {before behind before' behind' : List (BinaryOp × Expr)}
    {link link' : BinaryOp × Expr} (same : before ++ link :: behind = before' ++ link' :: behind')
    (low : ∀ x ∈ before, link.1.power ≤ x.1.power) (high : ∀ x ∈ behind, link.1.power < x.1.power)
    (low' : ∀ x ∈ before', link'.1.power ≤ x.1.power)
    (high' : ∀ x ∈ behind', link'.1.power < x.1.power) :
    before = before' ∧ link = link' ∧ behind = behind' := by
  obtain ⟨between, before_eq, behind_eq⟩ | ⟨between, before_eq, behind_eq⟩ :=
    List.append_eq_append_iff.mp same
  · cases between with
    | nil =>
      obtain ⟨rfl, rfl⟩ := List.cons.inj behind_eq
      exact ⟨by simpa using before_eq.symm, rfl, rfl⟩
    | cons x between =>
      -- The other link would stand right of this one, and this one left of the other.
      obtain ⟨rfl, rfl⟩ := List.cons.inj behind_eq
      have tighter := high link' (by simp)
      have weaker := low' link (by simp [before_eq])
      omega
  · cases between with
    | nil =>
      obtain ⟨rfl, rfl⟩ := List.cons.inj behind_eq
      exact ⟨by simpa using before_eq, rfl, rfl⟩
    | cons x between =>
      obtain ⟨rfl, rfl⟩ := List.cons.inj behind_eq
      have tighter := high' link (by simp)
      have weaker := low link' (by simp [before_eq])
      omega

/-- A chain of operands and operators is grouped in one way. -/
theorem Bound.unique (bound : g.Bound) (other_bound : other.Bound) (first : other.first = g.first)
    (links : other.links = g.links) : other = g := by
  induction bound generalizing other with
  | operand =>
    cases other_bound with
    | operand => exact congrArg Grouping.operand first
    | node => simp [Grouping.links] at links
  | @node op lhs rhs left right lhs_bound rhs_bound ih_left ih_right =>
    cases other_bound with
    | operand => simp [Grouping.links] at links
    | node left' right' lhs_bound' rhs_bound' =>
      obtain ⟨before, link, behind⟩ := weakest_unique links (lhs_bound'.power_le left')
        (rhs_bound'.power_le right') (lhs_bound.power_le left) (rhs_bound.power_le right)
      obtain ⟨rfl, head⟩ := Prod.mk.inj link
      rw [ih_left lhs_bound' first before, ih_right rhs_bound' head behind]

end Grouping

end Grammar

end Frontend
