import Frontend.Tree.Walk

/-!
Trees that stand in their source in order. Nodes form a row when each stands behind the one before
it; a row is asked of the children of every node too, inside the stretch of their parent. Walks over
such trees go through the source from its start to its end.
-/
namespace Frontend

/-- A stretch between two offsets. It is not empty, and both of its ends are good. -/
structure Span.Lies (good : Position → Prop) (lo : Nat) (s : Span) (hi : Nat) : Prop where
  start_good : good s.start
  stop_good : good s.stop
  lower : lo ≤ s.start.offset
  wide : s.start.offset < s.stop.offset
  upper : s.stop.offset ≤ hi

namespace Span.Lies

variable {good : Position → Prop} {lo hi lo' hi' : Nat} {s first last : Span}

theorem order (h : s.Lies good lo hi) : lo < hi :=
  Nat.lt_of_le_of_lt h.lower (Nat.lt_of_lt_of_le h.wide h.upper)

/-- What comes before a stretch comes before its end. -/
theorem reaches (h : s.Lies good lo hi) : lo ≤ s.stop.offset :=
  Nat.le_trans h.lower (Nat.le_of_lt h.wide)

/-- A stretch begins before what comes behind it. -/
theorem begins (h : s.Lies good lo hi) : s.start.offset < hi :=
  Nat.lt_of_lt_of_le h.wide h.upper

theorem mono (h : s.Lies good lo hi) (lower : lo' ≤ lo) (upper : hi ≤ hi') :
    s.Lies good lo' hi' :=
  { h with lower := Nat.le_trans lower h.lower, upper := Nat.le_trans h.upper upper }

/-- From the start of one stretch to the stop of a later one. -/
theorem through (h : first.Lies good lo lo') (h' : last.Lies good hi' hi) (order : lo' ≤ hi') :
    (first.through last).Lies good lo hi where
  start_good := h.start_good
  stop_good := h'.stop_good
  lower := h.lower
  wide := by
    have before : first.start.offset < hi' := Nat.lt_of_lt_of_le h.begins order
    exact Nat.lt_trans (Nat.lt_of_lt_of_le before h'.lower) h'.wide
  upper := h'.upper

end Span.Lies

namespace Node

/-- Nodes one behind the other between two offsets, each with its children in a row inside its own
stretch. -/
inductive Row (good : Position → Prop) : Nat → List Node → Nat → Prop
  | nil {lo hi : Nat} (order : lo ≤ hi) : Row good lo [] hi
  | cons {lo hi : Nat} {n : Node} {rest : List Node}
      (lies : n.span.Lies good lo n.span.stop.offset)
      (inside : Row good n.span.start.offset n.children n.span.stop.offset)
      (behind : Row good n.span.stop.offset rest hi) : Row good lo (n :: rest) hi

namespace Row

variable {good : Position → Prop} {lo mid hi lo' hi' : Nat} {n m : Node} {nodes rest : List Node}

theorem order (h : Row good lo nodes hi) : lo ≤ hi := by
  induction h with
  | nil order => exact order
  | cons lies _ _ _ ih => exact Nat.le_trans (Nat.le_of_lt lies.order) ih

theorem lower (h : Row good lo nodes hi) (le : lo' ≤ lo) : Row good lo' nodes hi := by
  cases h with
  | nil order => exact .nil (Nat.le_trans le order)
  | cons lies inside behind => exact .cons (lies.mono le (Nat.le_refl _)) inside behind

theorem upper (h : Row good lo nodes hi) (le : hi ≤ hi') : Row good lo nodes hi' := by
  induction h with
  | nil order => exact .nil (Nat.le_trans order le)
  | cons lies inside _ _ ih => exact .cons lies inside (ih le)

/-- Nothing in a row is further on than where the row ends. -/
theorem early (h : Row good lo nodes hi) (le : hi ≤ hi') :
    Row (·.offset ≤ hi') lo nodes hi := by
  induction h with
  | nil order => exact .nil order
  | cons lies _ behind inner rest =>
    have stop := Nat.le_trans behind.order le
    have start := Nat.le_trans (Nat.le_of_lt lies.wide) stop
    exact .cons ⟨start, stop, lies.lower, lies.wide, lies.upper⟩ (inner stop) (rest le)

theorem append (h : Row good lo nodes mid) (h' : Row good mid rest hi) :
    Row good lo (nodes ++ rest) hi := by
  induction h with
  | nil order => exact h'.lower order
  | cons lies inside _ _ ih => exact .cons lies inside (ih h')

/-- A row comes apart at every one of its nodes. -/
theorem split (h : Row good lo (nodes ++ rest) hi) :
    ∃ mid, Row good lo nodes mid ∧ Row good mid rest hi := by
  induction nodes generalizing lo with
  | nil => exact ⟨lo, .nil (Nat.le_refl _), h⟩
  | cons n nodes ih =>
    cases h with
    | cons lies inside behind =>
      obtain ⟨mid, first, second⟩ := ih behind
      exact ⟨mid, .cons lies inside first, second⟩

theorem uncons (h : Row good lo (n :: rest) hi) :
    ∃ mid, Row good lo [n] mid ∧ Row good mid rest hi := by
  cases h with
  | cons lies inside behind => exact ⟨_, .cons lies inside (.nil (Nat.le_refl _)), behind⟩

/-- A node alone, over a stretch that its children are inside of. -/
theorem one (lies : n.span.Lies good lo hi)
    (inside : Row good n.span.start.offset n.children n.span.stop.offset) : Row good lo [n] hi :=
  .cons { lies with upper := Nat.le_refl _ } inside (.nil lies.upper)

theorem leaf (lies : n.span.Lies good lo hi) (none : n.children = []) : Row good lo [n] hi := by
  apply one lies
  rw [none]
  exact .nil (Nat.le_of_lt lies.wide)

theorem lies (h : Row good lo [n] hi) : n.span.Lies good lo hi := by
  cases h with
  | cons lies _ behind => exact lies.mono (Nat.le_refl _) behind.order

theorem inside (h : Row good lo [n] hi) :
    Row good n.span.start.offset n.children n.span.stop.offset := by
  cases h with
  | cons _ inside _ => exact inside

/-- A row begins where its first node does. -/
theorem fromFirst (h : Row good lo (n :: rest) hi) :
    Row good n.span.start.offset (n :: rest) hi := by
  cases h with
  | cons lies inside behind =>
    exact .cons { lies with lower := Nat.le_refl _ } inside behind

/-- A row ends where its last node does. -/
theorem uptoLast (h : Row good lo (nodes ++ [n]) hi) :
    Row good lo (nodes ++ [n]) n.span.stop.offset := by
  generalize split : nodes ++ [n] = all at h
  induction h generalizing nodes with
  | nil => simp at split
  | @cons lo hi first rest lies inside behind _ ih =>
    cases nodes with
    | nil =>
      cases split
      exact .cons lies inside (.nil (Nat.le_refl _))
    | cons _ nodes =>
      cases split
      exact .cons lies inside (ih rfl)

theorem of_mem (h : Row good lo nodes hi) (mem : n ∈ nodes) : Row good lo [n] hi := by
  induction h with
  | nil => cases mem
  | cons lies inside behind _ ih =>
    cases mem with
    | head => exact .cons lies inside (.nil behind.order)
    | tail _ mem => exact (ih mem).lower (Nat.le_of_lt lies.order)

/-- A node from a place in front of its children to a place behind them. -/
theorem between {first stop : Position} (first_good : good first) (stop_good : good stop)
    (lower : lo ≤ first.offset) (before : first.offset < mid)
    (children : Row good mid n.children stop.offset) (upper : stop.offset ≤ hi)
    (span : n.span = ⟨first, stop⟩) : Row good lo [n] hi := by
  apply one
  · rw [span]
    exact ⟨first_good, stop_good, lower, Nat.lt_of_lt_of_le before children.order, upper⟩
  · rw [span]
    exact children.lower (Nat.le_of_lt before)

/-- A node that begins with a word and ends at a place behind its children. -/
theorem fromWord {first : Span} {stop : Position} (opening : first.Lies good lo mid)
    (children : Row good mid n.children stop.offset) (stop_good : good stop)
    (upper : stop.offset ≤ hi) (span : n.span = ⟨first.start, stop⟩) : Row good lo [n] hi :=
  between opening.start_good stop_good opening.lower
    opening.begins children upper span

/-- A node whose children stand between its first and its last word. -/
theorem enclosed {first last : Span} (opening : first.Lies good lo lo')
    (children : Row good lo' n.children hi') (closing : last.Lies good hi' hi)
    (span : n.span = first.through last) : Row good lo [n] hi := by
  exact fromWord opening (children.upper closing.reaches) closing.stop_good closing.upper span

/-- A node that begins with a word and ends with its last child. -/
theorem uptoChild {first : Span} (opening : first.Lies good lo mid)
    (children : Row good mid n.children hi) (last : n.children.getLast? = some m)
    (span : n.span = first.through m.span) : Row good lo [n] hi := by
  obtain ⟨before, split⟩ := List.getLast?_eq_some_iff.mp last
  rw [split] at children
  have last_lies := (children.of_mem (List.mem_append_right _ (List.mem_singleton_self m))).lies
  apply fromWord opening _ last_lies.stop_good last_lies.upper span
  rw [split]
  exact children.uptoLast

/-- A node that begins with its first child and ends at a place behind all of them. -/
theorem fromChild {stop : Position} (children : Row good lo n.children stop.offset)
    (first : n.children.head? = some m) (stop_good : good stop) (upper : stop.offset ≤ hi)
    (span : n.span = ⟨m.span.start, stop⟩) : Row good lo [n] hi := by
  obtain ⟨rest, split⟩ := List.head?_eq_some_iff.mp first
  rw [split] at children
  have first_lies := (children.of_mem List.mem_cons_self).lies
  apply one
  · rw [span]
    exact ⟨first_lies.start_good, stop_good, first_lies.lower,
      Nat.lt_of_lt_of_le first_lies.wide first_lies.upper, upper⟩
  · rw [span, split]
    exact children.fromFirst

/-- A node from its first child to its last. -/
theorem spanning {l : Node} (children : Row good lo n.children hi)
    (first : n.children.head? = some m) (last : n.children.getLast? = some l)
    (span : n.span = m.span.through l.span) : Row good lo [n] hi := by
  obtain ⟨before, split⟩ := List.getLast?_eq_some_iff.mp last
  have ends := children
  rw [split] at ends
  have last_lies := (ends.of_mem (List.mem_append_right _ (List.mem_singleton_self l))).lies
  apply fromChild _ first last_lies.stop_good last_lies.upper span
  rw [split]
  exact ends.uptoLast

/-- The nodes of a row do not overlap, and stand in their order. -/
theorem pairwise (h : Row good lo nodes hi) :
    nodes.Pairwise fun a b => a.span.stop.offset ≤ b.span.start.offset := by
  induction h with
  | nil => exact .nil
  | cons lies inside behind _ ih =>
    exact .cons (fun m mem => (behind.of_mem mem).lies.lower) ih

end Row

/-- The nodes of a tree: its root and all that is below it. -/
inductive Within (root : Node) : Node → Prop
  | root : Within root root
  | child {n m : Node} (above : Within root n) (child : m ∈ n.children) : Within root m

/-- Every node of a tree that stands in order does so itself. -/
theorem Row.within {good : Position → Prop} {lo hi : Nat} {root n : Node}
    (h : Row good lo [root] hi) (below : Within root n) : Row good lo [n] hi := by
  induction below with
  | root => exact h
  | child above child ih =>
    have lies := ih.lies
    exact ((ih.inside.of_mem child).lower lies.lower).upper lies.upper

/-- Where in the source a step of a walk is: a walk leaves a node at its end. -/
def Step.offset : Step → Nat
  | .visit n | .skip n => n.span.start.offset
  | .leave n => n.span.stop.offset

/-- Steps between two offsets, latest first, that go through the source from its start on. -/
structure Onward (lo : Nat) (steps : List Step) (hi : Nat) : Prop where
  sorted : steps.Pairwise fun later earlier => earlier.offset ≤ later.offset
  between : ∀ s ∈ steps, lo ≤ s.offset ∧ s.offset ≤ hi

theorem Onward.nil {lo hi : Nat} : Onward lo [] hi := ⟨.nil, nofun⟩

theorem Onward.one {lo hi : Nat} {s : Step} (lower : lo ≤ s.offset) (upper : s.offset ≤ hi) :
    Onward lo [s] hi :=
  ⟨.cons nofun .nil, by simp [lower, upper]⟩

theorem Onward.append {lo mid hi : Nat} {later earlier : List Step} (h : Onward mid later hi)
    (h' : Onward lo earlier mid) (lower : lo ≤ mid) (upper : mid ≤ hi) :
    Onward lo (later ++ earlier) hi := by
  constructor
  · rw [List.pairwise_append]
    refine ⟨h.sorted, h'.sorted, fun a a_mem b b_mem => ?_⟩
    exact Nat.le_trans (h'.between b b_mem).2 (h.between a a_mem).1
  · intro s mem
    obtain mem | mem := List.mem_append.mp mem
    · have found := h.between s mem
      exact ⟨Nat.le_trans lower found.1, found.2⟩
    · have found := h'.between s mem
      exact ⟨found.1, Nat.le_trans found.2 upper⟩

/-- The steps of walks over nodes in a row, one after the other. -/
theorem Row.onward {good : Position → Prop} {lo hi : Nat} {nodes : List Node}
    (h : Row good lo nodes hi) (skip : Node → Bool) (steps : List Step) :
    ∃ more, nodes.foldl (fun steps m => m.walk (tracing skip) steps) steps = more ++ steps ∧
      Onward lo more hi := by
  induction h generalizing steps with
  | nil => exact ⟨[], rfl, .nil⟩
  | @cons lo hi n rest lies inside behind inside_ih behind_ih =>
    obtain ⟨below, below_eq, below_onward⟩ := inside_ih (.visit n :: steps)
    have wide := Nat.le_of_lt lies.wide
    have first : ∃ own, n.walk (tracing skip) steps = own ++ steps ∧
        Onward lo own n.span.stop.offset := by
      rw [walk_eq]
      by_cases skipped : skip n = true
      · refine ⟨[.skip n], ?_, .one lies.lower wide⟩
        simp [tracing, skipped]
      · refine ⟨.leave n :: (below ++ [.visit n]), ?_, ?_⟩
        · simp [tracing, skipped, ← below_eq]
        · have visit : Onward lo [.visit n] n.span.start.offset := .one lies.lower (Nat.le_refl _)
          have leave : Onward n.span.stop.offset [.leave n] n.span.stop.offset :=
            .one (Nat.le_refl _) (Nat.le_refl _)
          exact leave.append (below_onward.append visit lies.lower wide)
            (Nat.le_trans lies.lower wide) (Nat.le_refl _)
    obtain ⟨own, own_eq, own_onward⟩ := first
    obtain ⟨after, after_eq, after_onward⟩ := behind_ih (own ++ steps)
    refine ⟨after ++ own, ?_, ?_⟩
    · rw [List.foldl_cons, own_eq, after_eq, List.append_assoc]
    · exact after_onward.append own_onward (Nat.le_trans lies.lower wide) behind.order

/-- A walk over a tree that stands in order goes through the source from its start to its end. -/
theorem Row.trace_sorted {good : Position → Prop} {lo hi : Nat} {root : Node}
    (h : Row good lo [root] hi) (skip : Node → Bool) :
    (root.trace skip).Pairwise fun earlier later => earlier.offset ≤ later.offset := by
  obtain ⟨steps, eq, onward⟩ := h.onward skip []
  have walked : root.walk (tracing skip) [] = steps := by simpa using eq
  rw [trace, walked, List.pairwise_reverse]
  exact onward.sorted

end Node

end Frontend
