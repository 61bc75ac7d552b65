import Frontend.Proofs.Decoding
import Frontend.Proofs.Walks
import Frontend.Tree.Dump

/-!
Listings of trees. What is printed is one text: the header and then a line for every node, in
preorder and as deep as its route is long. A sink that takes some bytes gets as many of that text,
whatever piece its end comes in, and has failed if there are more. The depth is counted up and down
along the walk; it never goes below what it began with, also where printing has ended on the way.
-/
namespace Frontend

theorem Utf8.ofString_append (a b : String) : ofString (a ++ b) = ofString a ++ ofString b := by
  rw [ofString, String.toList_append, encode_append]
  rfl

namespace Sink

variable {room : Option Nat} {done : List UInt8} {sink : Sink}

/-- Writes a text unless the sink has failed before. -/
def put (sink : Sink) (text : String) : Sink := if sink.failed then sink else sink.write text

/-- A sink that some bytes have been offered to, and that had room at first: it has as many of them
as it had room for, and has failed if these are not all. -/
structure Offered (room : Option Nat) (done : List UInt8) (sink : Sink) : Prop where
  bytes : sink.bytes = room.elim done done.take
  failed : sink.failed = true ↔ ∃ limit, room = some limit ∧ limit < done.length
  rest : sink.failed = false → sink.room = room.map (· - done.length)

theorem offered_unbounded : Offered none [] unbounded := ⟨rfl, by simp [unbounded], fun _ => rfl⟩

theorem offered_bounded (limit : Nat) : Offered (some limit) [] (bounded limit) :=
  ⟨by simp [bounded, bytes], by simp [bounded], fun _ => by simp [bounded]⟩

/-- The bytes behind a new piece. -/
theorem bytes_cons (room : Option Nat) (piece : List UInt8) (pieces : List (List UInt8))
    (failed : Bool) : bytes ⟨room, piece :: pieces, failed⟩ = pieces.reverse.flatten ++ piece := by
  simp [bytes]

/-- A text is offered behind what was offered before. -/
theorem Offered.put (h : Offered room done sink) (text : String) :
    Offered room (done ++ Utf8.ofString text) (sink.put text) := by
  obtain ⟨bytes, failed, rest⟩ := h
  generalize piece_eq : Utf8.ofString text = piece
  cases already : sink.failed with
  | true =>
    obtain ⟨limit, rfl, less⟩ := failed.mp already
    rw [Sink.put, if_pos already]
    refine ⟨?_, ?_, fun going => absurd already (by simp [going])⟩
    · rw [bytes, Option.elim_some, Option.elim_some, List.take_append_of_le_length (by omega)]
    · simp [already]
      omega
  | false =>
    have left := rest already
    rw [Sink.put, if_neg (by simp [already]), write, left, piece_eq]
    cases room with
    | none =>
      rw [Option.elim_none] at bytes
      refine ⟨?_, by simp [already], fun _ => by simp⟩
      simp [← bytes, Sink.bytes]
    | some limit =>
      have all : done.length ≤ limit := by
        have enough := mt failed.mpr (by simp [already])
        simpa using enough
      have taken : sink.pieces.reverse.flatten = done := by
        rw [← Sink.bytes, bytes, Option.elim_some, List.take_of_length_le all]
      by_cases fits : piece.length ≤ limit - done.length
      · simp only [Option.map_some, fits, if_true]
        refine ⟨?_, ?_, fun _ => ?_⟩
        · rw [bytes_cons, taken, Option.elim_some, List.take_of_length_le]
          simp
          omega
        · simp [already]
          omega
        · simp
          omega
      · simp only [Option.map_some, fits, if_false]
        refine ⟨?_, ?_, by simp⟩
        · rw [bytes_cons, taken, Option.elim_some, List.take_append, List.take_of_length_le all]
        · simp
          omega

/-- Texts are offered one behind the other. -/
theorem Offered.foldl_put (h : Offered room done sink) (texts : List String) :
    Offered room (done ++ Utf8.ofString (String.join texts)) (texts.foldl Sink.put sink) := by
  induction texts generalizing done sink with
  | nil => simpa [Utf8.ofString, Utf8.encode] using h
  | cons text texts ih =>
    have rest := ih (h.put text)
    rwa [List.append_assoc, ← Utf8.ofString_append, ← String.join_cons] at rest

end Sink

/-- The pass, where a node may only be left in a state that `ok` holds of. A walk that leaves one in
any other state has no result. -/
def Pass.guarded {σ : Type} (ok : σ → Bool) (pass : Pass σ) : Pass (Option σ) where
  enter n
    | none => (false, none)
    | some s => ((pass.enter n s).1, some (pass.enter n s).2)
  leave n
    | none => none
    | some s => if ok s then some (pass.leave n s) else none

namespace Node

variable {n m : Node} {k depth : Nat} {sink : Sink}

/-- The nodes of a tree in preorder, each with the route to it. -/
def occurrences (n : Node) : List (Route × Node) := (n.moves fun _ => false).filterMap Move.entry?

/-- The lines of a tree whose root stands at a depth. -/
def linesAt (depth : Nat) (n : Node) : List String :=
  n.occurrences.map fun o => o.2.line (depth + o.1.length)

/-- The listing of a tree: the header, and a line for each node, as deep as it has nodes above it. -/
def listing (name : String) (n : Node) : String :=
  header name ++ String.join (n.occurrences.map fun o => o.2.line o.1.length)

/-- What is below several nodes is one deeper than it is below each of them. -/
theorem lines_spread (depth k : Nat) (lists : List (List Move)) :
    ((Move.spread k lists).filterMap Move.entry?).map (fun o => o.2.line (depth + o.1.length)) =
      lists.flatMap fun moves =>
        (moves.filterMap Move.entry?).map fun o => o.2.line (depth + 1 + o.1.length) := by
  induction lists generalizing k with
  | nil => rfl
  | cons moves lists ih =>
    have deeper : (moves.map (Move.under k)).filterMap Move.entry? =
        (moves.filterMap Move.entry?).map fun o => (k :: o.1, o.2) := by
      rw [List.filterMap_map, List.map_filterMap]
      congr 1
      funext e
      cases e <;> rfl
    rw [Move.spread, List.filterMap_append, List.map_append, ih, deeper, List.map_map,
      List.flatMap_cons]
    congr 2
    funext o
    simp [Nat.add_assoc, Nat.add_comm 1]

/-- The lines of a tree are that of its root, and then those of the trees below. -/
theorem linesAt_eq (depth : Nat) (n : Node) :
    n.linesAt depth = n.line depth :: n.children.flatMap (linesAt (depth + 1)) := by
  have ends (inside : List Move) : (.enter [] n :: (inside ++ [.leave [] n])).filterMap Move.entry? =
      ([], n) :: inside.filterMap Move.entry? := by simp [Move.entry?]
  rw [linesAt, occurrences, moves_eq, if_neg (by simp), ends, List.map_cons, movesBelow,
    lines_spread, List.flatMap_map]
  rfl

/-- Nothing is put into a sink that has failed. -/
theorem foldl_put_failed (failed : sink.failed = true) (texts : List String) :
    texts.foldl Sink.put sink = sink := by
  induction texts with
  | nil => rfl
  | cons text texts ih => rw [List.foldl_cons, Sink.put, if_pos failed, ih]

/-- Printing several trees, if each puts its lines into the sink and comes back. -/
theorem foldl_walk_printing {nodes : List Node} (each : ∀ m ∈ nodes, ∀ sink,
    m.walk printing ⟨sink, depth⟩ = ⟨(m.linesAt depth).foldl Sink.put sink, depth⟩) (sink : Sink) :
    nodes.foldl (fun p m => m.walk printing p) ⟨sink, depth⟩ =
      ⟨(nodes.flatMap (linesAt depth)).foldl Sink.put sink, depth⟩ := by
  induction nodes generalizing sink with
  | nil => rfl
  | cons m nodes ih =>
    obtain ⟨first, each⟩ := List.forall_mem_cons.mp each
    rw [List.foldl_cons, first, ih each, List.flatMap_cons, List.foldl_append]

/-- Printing a tree puts its lines into the sink and comes back to the depth that it began with. -/
theorem walk_printing (n : Node) (sink : Sink) (depth : Nat) :
    n.walk printing ⟨sink, depth⟩ = ⟨(n.linesAt depth).foldl Sink.put sink, depth⟩ := by
  have below : ∀ m ∈ n.children, ∀ sink, m.walk printing ⟨sink, depth + 1⟩ =
      ⟨(m.linesAt (depth + 1)).foldl Sink.put sink, depth + 1⟩ :=
    fun m _ sink => walk_printing m sink (depth + 1)
  rw [walk_eq, linesAt_eq, List.foldl_cons]
  cases already : sink.failed with
  | true => simp [printing, already, Sink.put, foldl_put_failed]
  | false =>
    have put : sink.put (n.line depth) = sink.write (n.line depth) := by simp [Sink.put, already]
    rw [put]
    -- Where this line breaks the sink, the walk ends, and the lines below would not change the sink.
    cases broken : (sink.write (n.line depth)).failed with
    | true => simp [printing, already, broken, foldl_put_failed]
    | false =>
      have enter : printing.enter n ⟨sink, depth⟩ =
          (true, ⟨sink.write (n.line depth), depth + 1⟩) := by simp [printing, already, broken]
      rw [enter, if_pos rfl, foldl_walk_printing below]
      rfl
termination_by n
decreasing_by exact sizeOf_child ‹_›

section Depth

/-- The pass that prints, where a node may only be left at a depth that can be counted down. -/
def countedPrinting : Pass (Option Printer) := printing.guarded fun p => 0 < p.depth

theorem foldl_countedPrinting {nodes : List Node}
    (each : ∀ m ∈ nodes, ∀ p, m.walk countedPrinting (some p) = some (m.walk printing p))
    (p : Printer) : nodes.foldl (fun p m => m.walk countedPrinting p) (some p) =
      some (nodes.foldl (fun p m => m.walk printing p) p) := by
  induction nodes generalizing p with
  | nil => rfl
  | cons m nodes ih =>
    obtain ⟨first, each⟩ := List.forall_mem_cons.mp each
    rw [List.foldl_cons, first, ih each, List.foldl_cons]

/-- The depth can be counted down wherever a node is left, whatever the sink takes. -/
theorem walk_countedPrinting (n : Node) (p : Printer) :
    n.walk countedPrinting (some p) = some (n.walk printing p) := by
  have below : ∀ m ∈ n.children, ∀ p, m.walk countedPrinting (some p) = some (m.walk printing p) :=
    fun m _ => walk_countedPrinting m
  have enter : countedPrinting.enter n (some p) =
      ((printing.enter n p).1, some (printing.enter n p).2) := rfl
  rw [walk_eq, walk_eq, enter]
  cases goes_on : (printing.enter n p).1 with
  | false => rfl
  | true =>
    -- Below the node the depth is one more, and each walk there comes back to it.
    have deeper : 0 < (printing.enter n p).2.depth := by
      revert goes_on
      unfold printing
      dsimp only
      split
      · nofun
      · split
        · nofun
        · exact fun _ => Nat.succ_pos _
    have back : 0 < (n.children.foldl (fun p m => m.walk printing p)
        (printing.enter n p).2).depth := by
      rwa [foldl_walk_printing fun m _ sink => walk_printing m sink _]
    rw [if_pos rfl, if_pos rfl, foldl_countedPrinting below]
    exact if_pos (decide_eq_true back)
termination_by n
decreasing_by exact sizeOf_child ‹_›

end Depth

/-- Printing is putting the header and the lines into the sink. -/
theorem print_eq (going : sink.failed = false) (name : String) (n : Node) :
    n.print name sink = (header name :: n.linesAt 0).foldl Sink.put sink := by
  have put : sink.put (header name) = sink.write (header name) := by simp [Sink.put, going]
  rw [List.foldl_cons, put, print]
  cases broken : (sink.write (header name)).failed with
  | true => simp [broken, foldl_put_failed]
  | false => simp [walk_printing]

theorem printLine_eq (going : sink.failed = false) (name : String) (n : Node) :
    n.printLine name sink = (header name :: n.linesAt 0 ++ ["\n"]).foldl Sink.put sink := by
  rw [List.foldl_append, ← print_eq going]
  rfl

theorem listing_eq (name : String) (n : Node) :
    n.listing name = String.join (header name :: n.linesAt 0) := by
  simp [listing, linesAt, String.join_cons]

/-- What a sink has of a listing with a newline behind it, on top of what it had before. -/
theorem offered_printLine {room : Option Nat} {done : List UInt8} (before : sink.Offered room done)
    (going : sink.failed = false) (name : String) (n : Node) :
    (n.printLine name sink).Offered room (done ++ Utf8.ofString (n.listing name ++ "\n")) := by
  rw [printLine_eq going, listing_eq]
  have all := before.foldl_put (header name :: n.linesAt 0 ++ ["\n"])
  have newline : String.join ["\n"] = "\n" := rfl
  rwa [String.join_append, newline] at all

/-- What a sink has of a listing, with the newline behind it or without. -/
theorem offered_print {room : Option Nat} (new : sink.Offered room []) (going : sink.failed = false)
    (name : String) (n : Node) :
    (n.print name sink).Offered room (Utf8.ofString (n.listing name)) ∧
      (n.printLine name sink).Offered room (Utf8.ofString (n.listing name ++ "\n")) := by
  refine ⟨?_, offered_printLine new going name n⟩
  rw [print_eq going, listing_eq]
  exact new.foldl_put _

/-- The nodes of a tree are what stands at its routes. -/
theorem mem_occurrences {n m : Node} {r : Route} : (r, m) ∈ n.occurrences ↔ n.at? r = some m := by
  have walk := isWalk_moves (fun _ => false) n
  rw [occurrences, List.mem_filterMap]
  constructor
  · rintro ⟨e, mem, entry⟩
    cases e <;> cases entry
    exact ((walk.entered r m).mp mem).1
  · intro there
    exact ⟨.enter r m, (walk.entered r m).mpr ⟨there, fun _ _ _ _ _ => rfl⟩, rfl⟩

/-- They are in preorder. -/
theorem pairwise_occurrences (n : Node) : n.occurrences.Pairwise (·.1 < ·.1) :=
  (isWalk_moves (fun _ => false) n).preorder

/-- A sink that takes some bytes gets as many of the listing of a tree, and fails if there are more;
the same with a newline behind it. The listing has a line for every node of the tree, in preorder,
each as deep as its node has others above it; on the way the depth is never counted down from
zero. -/
theorem print_cut (name : String) (n : Node) :
    let text := Utf8.ofString (n.listing name)
    let ended := Utf8.ofString (n.listing name ++ "\n")
    (∀ room, (n.print name (.bounded room)).bytes = text.take room ∧
      ((n.print name (.bounded room)).failed = true ↔ room < text.length)) ∧
    (∀ room, (n.printLine name (.bounded room)).bytes = ended.take room ∧
      ((n.printLine name (.bounded room)).failed = true ↔ room < ended.length)) ∧
    (n.print name .unbounded).bytes = text ∧ (n.printLine name .unbounded).bytes = ended ∧
    (∀ r m, (r, m) ∈ n.occurrences ↔ n.at? r = some m) ∧ n.occurrences.Pairwise (·.1 < ·.1) ∧
    ∀ p, n.walk countedPrinting (some p) = some (n.walk printing p) := by
  intro text ended
  have cut (room : Nat) := offered_print (Sink.offered_bounded room) rfl name n
  have whole := offered_print Sink.offered_unbounded rfl name n
  refine ⟨fun room => ⟨(cut room).1.bytes, ?_⟩, fun room => ⟨(cut room).2.bytes, ?_⟩,
    whole.1.bytes, whole.2.bytes, fun _ _ => mem_occurrences, pairwise_occurrences n,
    walk_countedPrinting n⟩
  · simpa using (cut room).1.failed
  · simpa using (cut room).2.failed

end Node

end Frontend
