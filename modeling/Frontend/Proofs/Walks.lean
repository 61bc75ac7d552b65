import Mathlib.Data.List.Basic
import Frontend.Proofs.Stored
import Frontend.Tree.Walk

/-!
Walks, move by move. A walk that passes by the nodes that a predicate holds of enters the other ones
and leaves them again, each in its place: the moves are known from the tree alone. Below, moves say
by a route which node they are about, since a tree may have the same node twice; the pass does not
see the route.
-/
namespace Frontend

namespace Node

/-- What a walk does: it enters the node that a route leads to, or leaves it. -/
inductive Move where
  | enter (r : Route) (m : Node)
  | leave (r : Route) (m : Node)

namespace Move

def route : Move → Route
  | enter r _ | leave r _ => r

/-- What is entered, and where. -/
def entry? : Move → Option (Route × Node)
  | enter r m => some (r, m)
  | leave .. => none

/-- The move as it is seen from the node above. -/
def under (k : Nat) : Move → Move
  | enter r m => enter (k :: r) m
  | leave r m => leave (k :: r) m

/-- Where a move stands among others. A node is left where one more child would be entered. -/
def key : Move → Route
  | enter r _ => r
  | leave r m => r ++ [m.children.length]

/-- Moves below several nodes, as they are seen from above. The first node has the number `k`. -/
def spread (k : Nat) : List (List Move) → List Move
  | [] => []
  | moves :: rest => moves.map (under k) ++ spread (k + 1) rest

end Move

/-- The moves of a walk that does not go below the nodes that `skip` holds of. -/
def moves (skip : Node → Bool) (n : Node) : List Move :=
  .enter [] n :: if skip n then [] else
    Move.spread 0 (n.children.attach.map fun m => m.1.moves skip) ++ [.leave [] n]
termination_by n
decreasing_by exact sizeOf_child m.2

/-- The moves below a node, if it is not skipped. -/
def movesBelow (skip : Node → Bool) (n : Node) : List Move :=
  Move.spread 0 (n.children.map (·.moves skip))

/-- What happens at a route and below it is one stretch of some moves. It begins when the node there
is entered; a skipped node has nothing below it, and any other one is left at the end. -/
def Nested (skip : Node → Bool) (moves : List Move) (r : Route) (m : Node) : Prop :=
  ∃ before inside after,
    moves = before ++ .enter r m :: (inside ++ (if skip m then [] else [.leave r m]) ++ after) ∧
      (∀ e ∈ inside, r <+: e.route ∧ r ≠ e.route) ∧ (skip m = true → inside = []) ∧
      ∀ e ∈ before ++ after, ¬ r <+: e.route

/-- What makes some moves a walk: the nodes without a skipped one above them are entered in preorder,
which is the order of their routes, and left if they are not skipped themselves; all of it once, and
one inside of the other. -/
structure IsWalk (skip : Node → Bool) (n : Node) (moves : List Move) : Prop where
  entered : ∀ r m, .enter r m ∈ moves ↔ n.at? r = some m ∧ n.Open skip r
  preorder : (moves.filterMap Move.entry?).Pairwise (·.1 < ·.1)
  left : ∀ r m, .leave r m ∈ moves ↔ .enter r m ∈ moves ∧ skip m = false
  once : moves.Nodup
  nested : ∀ r m, .enter r m ∈ moves → Nested skip moves r m

variable {skip : Node → Bool} {n m : Node} {r : Route} {e : Move} {k : Nat}

theorem moves_eq (skip : Node → Bool) (n : Node) : n.moves skip =
    .enter [] n :: if skip n then [] else n.movesBelow skip ++ [.leave [] n] := by
  rw [moves, movesBelow]
  simp

namespace Move

variable {lists : List (List Move)} {ms : List Move} {j : Nat}

@[simp] theorem route_under (k : Nat) (e : Move) : (e.under k).route = k :: e.route := by
  cases e <;> rfl

@[simp] theorem key_under (k : Nat) (e : Move) : (e.under k).key = k :: e.key := by
  cases e <;> rfl

theorem under_inj {j : Nat} {e' : Move} : e'.under j = e.under k ↔ j = k ∧ e' = e := by
  cases e <;> cases e' <;> simp [under, and_assoc]

/-- A move below several nodes is a move below one of them. -/
theorem mem_spread : e ∈ spread k lists ↔
    ∃ j ms, lists[j]? = some ms ∧ ∃ e' ∈ ms, under (k + j) e' = e := by
  induction lists generalizing k with
  | nil => simp [spread]
  | cons ms lists ih =>
    rw [spread, List.mem_append, List.mem_map, ih]
    constructor
    · rintro (here | ⟨j, ms', there, e', mem, rfl⟩)
      · exact ⟨0, ms, rfl, here⟩
      · exact ⟨j + 1, ms', there, e', mem, by rw [Nat.add_right_comm]; rfl⟩
    · rintro ⟨j, ms', there, e', mem, rfl⟩
      cases j with
      | zero =>
        cases there
        exact .inl ⟨e', mem, rfl⟩
      | succ j => exact .inr ⟨j, ms', there, e', mem, by rw [Nat.add_right_comm]; rfl⟩

/-- The moves below one of several nodes are one stretch of all of them. -/
theorem exists_spread (there : lists[j]? = some ms) : ∃ firsts lasts,
    spread k lists = firsts ++ ms.map (under (k + j)) ++ lasts ∧
      ∀ e ∈ firsts ++ lasts, ∀ r, ¬ (k + j) :: r <+: e.route := by
  induction lists generalizing k j with
  | nil => cases there
  | cons first lists ih =>
    cases j with
    | zero =>
      cases there
      refine ⟨[], spread (k + 1) lists, rfl, fun e mem r below => ?_⟩
      obtain ⟨j, _, _, e', _, rfl⟩ := mem_spread.mp mem
      rw [route_under, List.cons_prefix_cons] at below
      omega
    | succ j =>
      obtain ⟨firsts, lasts, eq, apart⟩ := @ih (k + 1) j there
      rw [Nat.add_right_comm] at eq apart
      refine ⟨first.map (under k) ++ firsts, lasts, by simp [spread, eq, Nat.add_assoc], ?_⟩
      intro e mem r below
      rw [List.append_assoc, List.mem_append] at mem
      obtain mem | mem := mem
      · obtain ⟨e', _, rfl⟩ := List.mem_map.mp mem
        rw [route_under, List.cons_prefix_cons] at below
        omega
      · exact apart e mem r below

/-- Moves below several nodes are in order if those below each of them are. -/
theorem pairwise_spread (each : ∀ ms ∈ lists, ms.Pairwise (·.key < ·.key)) (k : Nat) :
    (spread k lists).Pairwise (·.key < ·.key) := by
  induction lists generalizing k with
  | nil => exact .nil
  | cons ms lists ih =>
    obtain ⟨first, each⟩ := List.forall_mem_cons.mp each
    rw [spread, List.pairwise_append]
    refine ⟨List.pairwise_map.mpr (first.imp fun less => ?_), ih each (k + 1), ?_⟩
    · simpa using less
    · intro a a_mem b b_mem
      obtain ⟨a', _, rfl⟩ := List.mem_map.mp a_mem
      obtain ⟨j, _, _, b', _, rfl⟩ := mem_spread.mp b_mem
      rw [key_under, key_under]
      exact .rel (by omega)

end Move

/-- The moves at a node itself. -/
theorem mem_moves_nil (root : e.route = []) :
    e ∈ n.moves skip ↔ e = .enter [] n ∨ skip n = false ∧ e = .leave [] n := by
  have apart : e ∉ n.movesBelow skip := by
    intro mem
    obtain ⟨j, _, _, e', _, rfl⟩ := Move.mem_spread.mp mem
    rw [Move.route_under] at root
    cases root
  rw [moves_eq, List.mem_cons]
  cases skip n <;> simp [apart]

/-- The moves below a node are those of the nodes that are stored in it. -/
theorem mem_moves_under : e.under k ∈ n.moves skip ↔
    skip n = false ∧ ∃ m, n.stored[k]? = some m ∧ e ∈ m.moves skip := by
  have root : e.under k ≠ .enter [] n ∧ e.under k ≠ .leave [] n := by
    cases e <;> simp [Move.under]
  rw [moves_eq, List.mem_cons, movesBelow, children_eq_stored]
  cases skip n with
  | true => simp [root]
  | false =>
    simp only [Bool.false_eq_true, if_false, List.mem_append, List.mem_singleton, root, false_or,
      or_false, Move.mem_spread, Nat.zero_add, Move.under_inj, true_and]
    constructor
    · rintro ⟨j, ms, there, e', mem, rfl, rfl⟩
      obtain ⟨m, stored, rfl⟩ := by simpa using there
      exact ⟨m, stored, mem⟩
    · rintro ⟨m, stored, mem⟩
      exact ⟨k, _, by simp [stored], e, mem, rfl, rfl⟩

/-- A route is open below a node that is not skipped, if its rest is. -/
theorem open_cons : n.Open skip (k :: r) ↔
    skip n = false ∧ ∀ m, n.stored[k]? = some m → m.Open skip r := by
  constructor
  · intro clear
    refine ⟨clear [] n List.nil_prefix (List.cons_ne_nil k r).symm rfl, ?_⟩
    intro m stored q x short other there
    apply clear (k :: q) x (List.cons_prefix_cons.mpr ⟨rfl, short⟩) (by simpa using other)
    rw [at?, stored]
    exact there
  · rintro ⟨going, clear⟩ q x short other there
    cases q with
    | nil =>
      cases there
      exact going
    | cons j q =>
      obtain ⟨rfl, shorter⟩ := List.cons_prefix_cons.mp short
      obtain ⟨m, stored, there⟩ := Option.bind_eq_some_iff.mp there
      exact clear m stored q x shorter (by simpa using other) there

theorem enter_mem_moves_nil : .enter [] m ∈ n.moves skip ↔ m = n := by
  rw [mem_moves_nil rfl]
  simp

theorem enter_mem_moves_cons : .enter (k :: r) m ∈ n.moves skip ↔
    skip n = false ∧ ∃ c, n.stored[k]? = some c ∧ .enter r m ∈ c.moves skip :=
  @mem_moves_under skip n (.enter r m) k

/-- A walk enters the nodes that open routes lead to. -/
theorem enter_mem_moves : .enter r m ∈ n.moves skip ↔ n.at? r = some m ∧ n.Open skip r := by
  induction r generalizing n with
  | nil =>
    have clear : n.Open skip [] := fun q _ short other => absurd (List.prefix_nil.mp short) other
    rw [enter_mem_moves_nil, at?, Option.some.injEq, and_iff_left clear, eq_comm]
  | cons k r ih =>
    rw [enter_mem_moves_cons, open_cons, at?]
    cases stored : n.stored[k]? with
    | none => simp
    | some c => simp [ih, and_left_comm]

theorem leave_mem_moves_cons : .leave (k :: r) m ∈ n.moves skip ↔
    skip n = false ∧ ∃ c, n.stored[k]? = some c ∧ .leave r m ∈ c.moves skip :=
  @mem_moves_under skip n (.leave r m) k

/-- A walk leaves the nodes that it enters and does not pass by. -/
theorem leave_mem_moves :
    .leave r m ∈ n.moves skip ↔ .enter r m ∈ n.moves skip ∧ skip m = false := by
  induction r generalizing n with
  | nil =>
    rw [enter_mem_moves_nil, mem_moves_nil rfl]
    constructor
    · rintro (other | ⟨going, same⟩)
      · cases other
      · cases same
        exact ⟨rfl, going⟩
    · rintro ⟨rfl, going⟩
      exact .inr ⟨going, rfl⟩
  | cons k r ih =>
    rw [leave_mem_moves_cons, enter_mem_moves_cons]
    simp only [ih, ← and_assoc, exists_and_right]

/-- The moves of a walk are in order. -/
theorem moves_sorted (skip : Node → Bool) (n : Node) :
    (n.moves skip).Pairwise (·.key < ·.key) := by
  have below : ∀ m ∈ n.children, (m.moves skip).Pairwise (·.key < ·.key) :=
    fun m _ => moves_sorted skip m
  have inside : (n.movesBelow skip).Pairwise (·.key < ·.key) := by
    apply Move.pairwise_spread
    simpa using below
  rw [moves_eq]
  cases skip n with
  | true => simp
  | false =>
    -- Keys of moves below begin with the number of a child, and leaving has one that no child has.
    have between : ∀ e ∈ n.movesBelow skip, [] < e.key ∧ e.key < [n.children.length] := by
      intro e mem
      obtain ⟨j, _, there, e', _, rfl⟩ := Move.mem_spread.mp mem
      have bound := (List.getElem?_eq_some_iff.mp there).1
      rw [List.length_map] at bound
      rw [Move.key_under]
      exact ⟨.nil, .rel (by omega)⟩
    have behind : List.Pairwise (fun a b : Move => a.key < b.key)
        (n.movesBelow skip ++ [.leave [] n]) := by
      refine List.pairwise_append.mpr ⟨inside, List.pairwise_singleton _ _, fun e mem e' last => ?_⟩
      rw [List.mem_singleton.mp last]
      exact (between e mem).2
    refine List.pairwise_cons.mpr ⟨fun e mem => ?_, behind⟩
    obtain mem | last := List.mem_append.mp mem
    · exact (between e mem).1
    · rw [List.mem_singleton.mp last]
      exact .nil
termination_by n
decreasing_by exact sizeOf_child ‹_›

/-- All moves of a walk are at its root or below it. -/
theorem nested_root (skip : Node → Bool) (n : Node) : Nested skip (n.moves skip) [] n := by
  refine ⟨[], if skip n then [] else n.movesBelow skip, [], ?_, ?_, ?_, List.forall_mem_nil _⟩
  · rw [moves_eq]
    cases skip n <;> simp
  · intro e mem
    cases skipped : skip n with
    | true => simp [skipped] at mem
    | false =>
      simp only [skipped, Bool.false_eq_true, if_false] at mem
      obtain ⟨j, _, _, e', _, rfl⟩ := Move.mem_spread.mp mem
      exact ⟨List.nil_prefix, by simp⟩
  · intro skipped
    rw [if_pos skipped]

/-- A stretch of a walk over a stored node is one of the whole walk. -/
theorem Nested.above {c : Node} (going : skip n = false) (stored : n.stored[k]? = some c)
    (h : Nested skip (c.moves skip) r m) : Nested skip (n.moves skip) (k :: r) m := by
  obtain ⟨before, inside, after, moves_c, inside_below, skipped, outside⟩ := h
  have there : (n.children.map (·.moves skip))[k]? = some (c.moves skip) := by
    rw [children_eq_stored, List.getElem?_map, stored]
    rfl
  obtain ⟨firsts, lasts, all, apart⟩ := @Move.exists_spread 0 _ _ _ there
  rw [Nat.zero_add] at all apart
  refine ⟨.enter [] n :: firsts ++ before.map (.under k), inside.map (.under k),
    after.map (.under k) ++ lasts ++ [.leave [] n], ?_, ?_, ?_, ?_⟩
  · rw [moves_eq, going, movesBelow, all, moves_c]
    cases skip m <;> simp [Move.under]
  · intro e mem
    obtain ⟨e', mem', rfl⟩ := List.mem_map.mp mem
    obtain ⟨below, other⟩ := inside_below e' mem'
    rw [Move.route_under]
    exact ⟨List.cons_prefix_cons.mpr ⟨rfl, below⟩, by simpa using other⟩
  · intro passed
    rw [skipped passed]
    rfl
  · intro e mem below
    -- The move is at the root, below another node, or outside of the stretch below this one.
    have origin : e.route = [] ∨ e ∈ firsts ++ lasts ∨ ∃ e' ∈ before ++ after, e'.under k = e := by
      simp only [List.cons_append, List.mem_append, List.mem_cons, List.mem_map,
        List.not_mem_nil, or_false] at mem ⊢
      obtain rfl | (mem | ⟨e', mem, rfl⟩) | (⟨e', mem, rfl⟩ | mem) | rfl := mem
      · exact .inl rfl
      · exact .inr (.inl (.inl mem))
      · exact .inr (.inr ⟨e', .inl mem, rfl⟩)
      · exact .inr (.inr ⟨e', .inr mem, rfl⟩)
      · exact .inr (.inl (.inr mem))
      · exact .inl rfl
    obtain root | other | ⟨e', aside, rfl⟩ := origin
    · rw [root] at below
      exact absurd (List.prefix_nil.mp below) (List.cons_ne_nil k r)
    · exact apart e other r below
    · rw [Move.route_under] at below
      exact outside e' aside (List.cons_prefix_cons.mp below).2

theorem nested_moves (entered : .enter r m ∈ n.moves skip) : Nested skip (n.moves skip) r m := by
  induction r generalizing n with
  | nil =>
    obtain rfl := enter_mem_moves_nil.mp entered
    exact nested_root skip m
  | cons k r ih =>
    obtain ⟨going, c, stored, entered⟩ := enter_mem_moves_cons.mp entered
    exact (ih entered).above going stored

/-- The moves of a walk are those of a walk. -/
theorem isWalk_moves (skip : Node → Bool) (n : Node) : IsWalk skip n (n.moves skip) where
  entered _ _ := enter_mem_moves
  preorder := by
    rw [List.pairwise_filterMap]
    refine (moves_sorted skip n).imp fun {a b} less x entered x' entered' => ?_
    cases a <;> cases entered
    cases b <;> cases entered'
    exact less
  left _ _ := leave_mem_moves
  once := by
    refine (moves_sorted skip n).imp ?_
    rintro a _ less rfl
    exact List.lt_irrefl _ less
  nested _ _ := nested_moves

end Node

/-- What becomes of the state of a pass by a move. -/
def Pass.perform {σ : Type} (pass : Pass σ) (s : σ) : Node.Move → σ
  | .enter _ m => (pass.enter m s).2
  | .leave _ m => pass.leave m s

namespace Node

variable {σ : Type} {pass : Pass σ} {skip : Node → Bool}

/-- A pass does not see the nodes above. -/
theorem foldl_spread (k : Nat) (lists : List (List Move)) (s : σ) :
    (Move.spread k lists).foldl pass.perform s =
      lists.foldl (fun s ms => ms.foldl pass.perform s) s := by
  induction lists generalizing k s with
  | nil => rfl
  | cons ms lists ih =>
    have same : ∀ s e, pass.perform s (Move.under k e) = pass.perform s e := by
      intro s e
      cases e <;> rfl
    simp [Move.spread, List.foldl_map, ih, same]

/-- A walk is its moves, for every pass that goes below the nodes that `skip` does not hold of. -/
theorem walk_eq_foldl (skips : ∀ m s, (pass.enter m s).1 = !skip m) (n : Node) (s : σ) :
    n.walk pass s = (n.moves skip).foldl pass.perform s := by
  have below : ∀ m ∈ n.children, ∀ s, m.walk pass s = (m.moves skip).foldl pass.perform s :=
    fun m _ => walk_eq_foldl skips m
  rw [walk_eq, moves_eq, skips]
  cases skip n with
  | true => rfl
  | false =>
    simp only [Bool.not_false, if_true, Bool.false_eq_true, if_false]
    rw [movesBelow, List.foldl_cons, List.foldl_append, foldl_spread, List.foldl_map,
      List.foldl_cons, List.foldl_nil, List.foldl_ext _ _ _ fun s m mem => below m mem s]
    rfl
termination_by n
decreasing_by exact sizeOf_child ‹_›

/-- What a trace shows of a move. -/
def Move.step (skip : Node → Bool) : Move → Step
  | .enter _ m => if skip m then .skip m else .visit m
  | .leave _ m => .leave m

/-- A trace shows the moves of a walk. -/
theorem trace_eq_map (skip : Node → Bool) (n : Node) :
    n.trace skip = (n.moves skip).map (Move.step skip) := by
  have skips : ∀ m s, ((tracing skip).enter m s).1 = !skip m := by
    intro m s
    cases passed : skip m <;> simp [tracing, passed]
  have noted : ∀ (moves : List Move) s, moves.foldl (tracing skip).perform s =
      (moves.map (Move.step skip)).reverse ++ s := by
    intro moves
    induction moves with
    | nil => exact fun s => rfl
    | cons e moves ih =>
      intro s
      have step : (tracing skip).perform s e = Move.step skip e :: s := by
        cases e with
        | enter r m => cases passed : skip m <;> simp [Pass.perform, Move.step, tracing, passed]
        | leave r m => rfl
      simp [ih, step]
  rw [trace, walk_eq_foldl skips, noted, List.append_nil, List.reverse_reverse]

/-- A walk goes through its moves, for every pass, whatever it passes by. These enter the nodes that
are not below a skipped one, in preorder and each once; those that are not skipped are left right
behind the last move below them. Where nothing is skipped, every node that is stored anywhere in the
tree is entered exactly once. -/
theorem walk_visits_stored (n : Node) :
    (∀ skip, IsWalk skip n (n.moves skip) ∧ n.trace skip = (n.moves skip).map (Move.step skip) ∧
      ∀ (σ : Type) (pass : Pass σ) (s : σ), (∀ m s, (pass.enter m s).1 = !skip m) →
        n.walk pass s = (n.moves skip).foldl pass.perform s) ∧
    ∀ r m, n.at? r = some m → ∃! k : Nat, (n.moves fun _ => false)[k]? = some (.enter r m) := by
  constructor
  · intro skip
    exact ⟨isWalk_moves skip n, trace_eq_map skip n, fun σ pass s skips => walk_eq_foldl skips n s⟩
  · intro r m there
    have all := isWalk_moves (fun _ => false) n
    have entered : .enter r m ∈ n.moves fun _ => false :=
      (all.entered r m).mpr ⟨there, fun _ _ _ _ _ => rfl⟩
    obtain ⟨k, at_k⟩ := List.getElem?_of_mem entered
    refine ⟨k, at_k, fun j at_j => ?_⟩
    have bound := (List.getElem?_eq_some_iff.mp at_j).1
    exact (List.getElem?_inj bound all.once).mp (at_j.trans at_k.symm)

end Node

end Frontend
