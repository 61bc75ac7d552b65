import Frontend.Tree.Node

/-!
Walks over trees: depth first, a node before its children. A pass is asked at each node whether to
go below it, and hears again of a node that it went below once all of it is done.
-/
namespace Frontend

/-- What a walk does at each node. `enter` also says whether to go on to the children. -/
structure Pass (σ : Type) where
  enter : Node → σ → Bool × σ
  leave : Node → σ → σ

namespace Node

/-- A walk over a node and all that is below it. -/
def walk {σ : Type} (pass : Pass σ) (n : Node) (s : σ) : σ :=
  match pass.enter n s with
  | (false, s) => s
  | (true, s) => pass.leave n (n.children.attach.foldl (fun s m => walk pass m.1 s) s)
termination_by n
decreasing_by exact sizeOf_child m.2

theorem walk_eq {σ : Type} (pass : Pass σ) (n : Node) (s : σ) :
    n.walk pass s =
      if (pass.enter n s).1 then
        pass.leave n (n.children.foldl (fun s m => m.walk pass s) (pass.enter n s).2)
      else (pass.enter n s).2 := by
  rw [walk]
  split <;> rename_i eq <;> simp [eq]

/-- What a walk reports: a node was entered, was passed by, or is done. -/
inductive Step where
  | visit (n : Node)
  | skip (n : Node)
  | leave (n : Node)

/-- A step as text: what happened and the label of the node. -/
def Step.render : Step → String
  | .visit n => s!"visit {n.label}"
  | .skip n => s!"skip {n.label}"
  | .leave n => s!"leave {n.label}"

/-- The pass that notes its steps, latest first, and does not go below nodes that `skip` holds
of. -/
def tracing (skip : Node → Bool) : Pass (List Step) where
  enter n steps := if skip n then (false, .skip n :: steps) else (true, .visit n :: steps)
  leave n steps := .leave n :: steps

/-- The steps of a walk that passes by the nodes that `skip` holds of. -/
def trace (skip : Node → Bool) (n : Node) : List Step := (n.walk (tracing skip) []).reverse

/-- The pass that counts the nodes of a kind. -/
def counting (p : Node → Bool) : Pass Nat where
  enter n k := (true, if p n then k + 1 else k)
  leave _ k := k

/-- How many nodes of a kind there are in a tree. -/
def count (p : Node → Bool) (n : Node) : Nat := n.walk (counting p) 0

/-- A `ret` statement. -/
def isRet : Node → Bool
  | stmt ⟨_, .ret _⟩ => true
  | _ => false

end Node

end Frontend
