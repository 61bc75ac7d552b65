import Mathlib
import Frontend.Proofs.LongestWords
import Frontend.Proofs.NamedFiles

/-!
The lines of a listing. A listing is its header and the rows of its nodes with newlines between
them, so there is a line for every node unless a row has newlines of its own. Names have none, as
they are identifiers of the source; strings may have some, as a label shows a string by its value.
-/
namespace Frontend

/-- The lines of a text. -/
def linesOf (text : String) : List String := (text.toList.splitOn '\n').map String.ofList

section Lines

theorem length_splitOn (text : List Char) (c : Char) :
    (text.splitOn c).length = text.count c + 1 := by
  induction text with
  | nil => rfl
  | cons d text ih =>
    rw [List.splitOn_cons_eq_if_modifyHead]
    by_cases same : d = c
    · simp [same, ih]
    · simp [same, ih]

theorem length_linesOf (text : String) : (linesOf text).length = newlines text + 1 := by
  rw [linesOf, List.length_map, length_splitOn, newlines]

/-- Texts that stand on one line each are the lines of what they are joined to. -/
theorem linesOf_intercalate {texts : List String} (some : texts ≠ [])
    (clean : ∀ text ∈ texts, newlines text = 0) : linesOf ("\n".intercalate texts) = texts := by
  have lines : (texts.map String.toList).map String.ofList = texts := by
    simp [Function.comp_def]
  rw [linesOf, String.toList_intercalate, show "\n".toList = ['\n'] from rfl,
    List.splitOn_intercalate, lines]
  · intro line mem
    obtain ⟨text, text_mem, rfl⟩ := List.mem_map.mp mem
    exact newlines_eq_zero.mp (clean text text_mem)
  · simpa using some

theorem join_behind_newlines (first : String) (texts : List String) :
    first ++ String.join (texts.map ("\n" ++ ·)) = "\n".intercalate (first :: texts) := by
  induction texts generalizing first with
  | nil => simp
  | cons text texts ih =>
    rw [String.intercalate_cons_cons, ← ih, List.map_cons, String.join_cons]
    simp [String.append_assoc]

theorem newlines_behind (texts : List String) :
    newlines (String.join (texts.map ("\n" ++ ·))) = texts.length + (texts.map newlines).sum := by
  induction texts with
  | nil => rfl
  | cons text texts ih =>
    simp only [List.map_cons, String.join_cons, newlines_append, ih, List.length_cons,
      List.sum_cons, show newlines "\n" = 1 by decide]
    omega

end Lines

namespace Node

variable {n : Node} {source_name : String}

/-- A sink that takes everything has the whole listing. -/
theorem dump_eq (source_name : String) (n : Node) : n.dump source_name = n.listing source_name := by
  have bytes := (offered_print Sink.offered_unbounded rfl source_name n).1.bytes
  rw [dump, bytes, Option.elim_none, Utf8.toStringLossy, Utf8.ofString, Utf8.decodeLossy_encode,
    String.ofList_toList]

theorem newlines_header (source_name : String) :
    newlines (header source_name) = newlines source_name := by
  unfold header
  split
  next empty =>
    rw [String.isEmpty_iff.mp empty]
    decide
  next =>
    show newlines ("AST of " ++ source_name ++ ":") = _
    rw [newlines_append, newlines_append, show newlines "AST of " = 0 by decide,
      show newlines ":" = 0 by decide, Nat.zero_add, Nat.add_zero]

/-- The rows of a tree, one for each node. -/
def rows (n : Node) : List String := n.occurrences.map fun o => o.2.row o.1.length

/-- A listing is the header and the rows of a tree with newlines between them. -/
theorem listing_eq_intercalate (source_name : String) (n : Node) :
    n.listing source_name = "\n".intercalate (header source_name :: n.rows) := by
  have lines : (fun o : Route × Node => o.2.line o.1.length) =
      ("\n" ++ ·) ∘ fun o => o.2.row o.1.length := funext fun o => line_eq o.2 o.1.length
  rw [listing, lines, ← List.map_map, join_behind_newlines, rows]

/-- What holds of the names of a tree holds of the names of all nodes in it. -/
theorem Named.at {good : String → Prop} {m : Node} : ∀ {n : Node} {r : Route},
    Named good n → n.at? r = some m → ∀ name ∈ m.names, good name
  | _, [], .intro own _, there => by
    cases there
    exact own
  | n, k :: r, .intro _ below, there => by
    obtain ⟨child, stored, there⟩ := Option.bind_eq_some_iff.mp there
    rw [← children_eq_stored] at stored
    exact (below child (List.mem_of_getElem? stored)).at there

/-- Where names stand on one line, the newlines in the rows of a tree are those of its strings. -/
theorem newlines_rows (clean : Named (newlines · = 0) n) :
    n.rows.map newlines = n.occurrences.map fun o => newlines o.2.text := by
  rw [rows, List.map_map]
  refine List.map_congr_left fun o mem => ?_
  exact newlines_row (clean.at (mem_occurrences.mp mem)) _

/-- A listing has a line for the header, one for each node, and one more for each newline inside of
these. -/
theorem length_linesOf_listing (clean : Named (newlines · = 0) n) :
    (linesOf (n.listing source_name)).length = 1 + n.occurrences.length +
      (newlines source_name + (n.occurrences.map fun o => newlines o.2.text).sum) := by
  have rows_length : n.rows.length = n.occurrences.length := List.length_map _
  rw [length_linesOf, listing_eq_intercalate, ← join_behind_newlines, newlines_append,
    newlines_header, newlines_behind, newlines_rows clean, rows_length]
  omega

/-- The lines of a listing are the header and the rows just if neither the name of the source nor a
string has a newline. -/
theorem linesOf_listing (clean : Named (newlines · = 0) n) :
    linesOf (n.listing source_name) = header source_name :: n.rows ↔
      newlines source_name = 0 ∧ ∀ o ∈ n.occurrences, newlines o.2.text = 0 := by
  constructor
  · intro lines
    have sizes := congrArg List.length lines
    rw [length_linesOf_listing clean, List.length_cons, rows, List.length_map] at sizes
    have none : (n.occurrences.map fun o => newlines o.2.text).sum = 0 := by omega
    refine ⟨by omega, fun o mem => ?_⟩
    exact List.sum_eq_zero_iff_forall_eq_nat.mp none _ (List.mem_map_of_mem mem)
  · rintro ⟨name_clean, texts_clean⟩
    rw [listing_eq_intercalate]
    refine linesOf_intercalate (List.cons_ne_nil _ _) (List.forall_mem_cons.mpr ⟨?_, ?_⟩)
    · rw [newlines_header, name_clean]
    · have rows_clean : ∀ k ∈ n.rows.map newlines, k = 0 := by
        rw [newlines_rows clean]
        exact List.forall_mem_map.mpr texts_clean
      exact List.forall_mem_map.mp rows_clean

end Node

/-- A name in the labels of a tree stands on one line. -/
theorem newlines_name {source : Source} {name : String} (known : NameIn source name) :
    newlines name = 0 := by
  obtain rfl | ⟨t, mem, word, rfl⟩ := known
  · decide
  · have is_word := ((Scan.scan_emitted source).1 t mem).isWord (by rw [word]; rfl)
    rw [word] at is_word
    refine newlines_eq_zero.mpr fun mem => ?_
    obtain rest | mark := is_word.forall_mem_ident _ mem
    · exact absurd rest (by decide)
    · exact absurd mark (by decide)

/-- The listing of a tree that comes of a source has a line for the header, one for each node, and
one more for each newline in the name of the source or in a string that a label shows. Its lines are
the header and then indentation, label and range of the nodes in preorder, one by one, just if there
are no such newlines. -/
theorem listing_lines {source : Source} {decls : List Toplevel}
    (parsed : (parse source).result = .ok decls) :
    let tree := Node.file decls
    let lines := linesOf (tree.dump source.name)
    lines.length = 1 + tree.occurrences.length + (newlines source.name +
      (tree.occurrences.map fun o => newlines o.2.text).sum) ∧
    (lines = Node.header source.name :: tree.rows ↔
      newlines source.name = 0 ∧ ∀ o ∈ tree.occurrences, newlines o.2.text = 0) ∧
    (∀ r m, (r, m) ∈ tree.occurrences ↔ tree.at? r = some m) ∧
    tree.occurrences.Pairwise (·.1 < ·.1) := by
  intro tree lines
  have clean : tree.Named (newlines · = 0) := (parse_named parsed).mono fun _ => newlines_name
  have lines_eq : lines = linesOf (tree.listing source.name) := by
    rw [← Node.dump_eq]
  refine ⟨?_, ?_, fun _ _ => Node.mem_occurrences, Node.pairwise_occurrences tree⟩
  · rw [lines_eq, Node.length_linesOf_listing clean]
  · rw [lines_eq]
    exact Node.linesOf_listing clean

/-- The listing of a file with an import. -/
theorem listing_lines_import :
    let source : Source := .inMemory "a" (Utf8.ofString "import a.b")
    let decls := [.importing ⟨⟨⟨0, 1, 1⟩, ⟨10, 1, 11⟩⟩, false, ["a"], ["b"]⟩]
    (parse source).result = .ok decls ∧ linesOf ((Node.file decls).dump source.name) =
      ["AST of a:", "Program (toplevels: 1) (1:1-1:11)", "-   Import (a.b) (1:1-1:11)"] := by
  intro source decls
  have parsed : (parse source).result = .ok decls := by cbv
  have rows : (Node.file decls).rows =
      ["Program (toplevels: 1) (1:1-1:11)", "-   Import (a.b) (1:1-1:11)"] := by cbv
  have texts : (Node.file decls).occurrences.map (fun o => newlines o.2.text) = [0, 0] := by cbv
  have texts_clean : ∀ o ∈ (Node.file decls).occurrences, newlines o.2.text = 0 := by
    have none : ∀ k ∈ [0, 0], k = 0 := by decide
    exact List.forall_mem_map.mp (texts ▸ none)
  have lines := (listing_lines parsed).2.1.mpr ⟨by decide, texts_clean⟩
  rw [rows] at lines
  exact ⟨parsed, lines⟩

/-- A string with a newline takes two lines of a listing. -/
theorem string_listed_on_two_lines :
    let source : Source := .inMemory "a" (Utf8.ofString "func f\nret \"a\\nb\"\nend\n")
    ∃ decls, (parse source).result = .ok decls ∧ (Node.file decls).occurrences.length = 4 ∧
      (linesOf ((Node.file decls).dump source.name)).length = 6 := by
  intro source
  have parsed : (parse source).result = .ok [.function ⟨⟨⟨0, 1, 1⟩, ⟨21, 3, 4⟩⟩, "f", [], none,
      [⟨⟨⟨7, 2, 1⟩, ⟨17, 2, 11⟩⟩, .ret [⟨⟨⟨11, 2, 5⟩, ⟨17, 2, 11⟩⟩, .string "a\nb"⟩]⟩]⟩] := by cbv
  refine ⟨_, parsed, by cbv, ?_⟩
  have clean := (parse_named parsed).mono fun _ => newlines_name
  rw [Node.dump_eq, Node.length_linesOf_listing clean]
  cbv

end Frontend
