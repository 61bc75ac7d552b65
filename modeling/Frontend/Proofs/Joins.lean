import Mathlib.Data.List.Basic
import Frontend.Proofs.Places

/-!
Names joined to a path. Whatever the path says, a name that is joined to it is one more component,
and the last piece of the text; so names go down one below the other, and an extension goes behind
the last one.
-/
namespace Frontend

namespace Path

variable {p q : Path} {n extension : String} {before : List Char}

/-- What a path has in front of whatever is joined to it. -/
def front (p : Path) : String :=
  if p.text.isEmpty || p.text.toList.getLast? == some '/' then p.text else p.text ++ "/"

theorem join_eq (relative : q.isAbsolute = false) : p.join q = ⟨p.front ++ q.text⟩ := by
  rw [join, if_neg (Bool.eq_false_iff.mp relative), front]
  split <;> rfl

/-- A slash at the end has an empty piece behind it. -/
theorem segmentsOf_concat_slash (before : List Char) :
    segmentsOf (before ++ ['/']) = segmentsOf before ++ [[]] := segmentsOf_slash before []

/-- What stands behind a slash adds its own components and hides none. -/
theorem components_slash (before rest : List Char) :
    components ⟨String.ofList (before ++ '/' :: rest)⟩ =
      components ⟨String.ofList (before ++ ['/'])⟩ ++ (segmentsOf rest).filterMap componentOf := by
  have head : (before ++ '/' :: rest).head? = (before ++ ['/']).head? := by
    cases before <;> rfl
  have pieces := segmentsOf_concat_slash before
  have first (more : List (List Char)) :
      (segmentsOf before ++ more).head? = (segmentsOf before).head? :=
    List.head?_append_of_ne_nil _ (segmentsOf_ne_nil before)
  have blank : componentOf [] = none := rfl
  simp [components, isAbsolute, segments, head, segmentsOf_slash, pieces, first, blank]

/-- A slash at the end of a path that says something already says nothing more. -/
theorem components_concat_slash (some : before ≠ []) :
    components ⟨String.ofList (before ++ ['/'])⟩ = components ⟨String.ofList before⟩ := by
  have head : (before ++ ['/']).head? = before.head? := List.head?_append_of_ne_nil _ some
  have pieces := segmentsOf_concat_slash before
  have first : (segmentsOf before ++ [[]]).head? = (segmentsOf before).head? :=
    List.head?_append_of_ne_nil _ (segmentsOf_ne_nil before)
  have blank : componentOf [] = none := rfl
  simp [components, isAbsolute, segments, head, pieces, first, blank]

/-- What stands in front of a joined name is nothing, or ends with a slash. -/
theorem front_cases (p : Path) :
    p.front = "" ∧ p.components = [] ∨
      ∃ before, p.front = String.ofList (before ++ ['/']) ∧
        components ⟨p.front⟩ = p.components := by
  obtain ⟨text⟩ := p
  by_cases empty : text = ""
  · subst empty
    exact .inl ⟨rfl, rfl⟩
  right
  by_cases slash : text.toList.getLast? = some '/'
  · have whole : text.toList = text.toList.dropLast ++ ['/'] :=
      (List.dropLast_append_getLast? _ slash).symm
    have front_eq : front ⟨text⟩ = text := by simp [front, slash]
    refine ⟨text.toList.dropLast, ?_, by rw [front_eq]⟩
    rw [front_eq, ← whole, String.ofList_toList]
  · have front_eq : front ⟨text⟩ = String.ofList (text.toList ++ ['/']) := by
      simp [front, slash, empty]
    refine ⟨text.toList, front_eq, ?_⟩
    rw [front_eq, components_concat_slash (by simpa using empty), String.ofList_toList]

/-- A name alone is a path of one component. -/
theorem components_name (is_name : IsName n) : components ⟨n⟩ = [.name n] := by
  have pieces : segments ⟨n⟩ = [n.toList] := segmentsOf_whole is_name.whole
  have here : n.toList ≠ ['.'] := fun dot => is_name.not_blank (.inr dot)
  simp [components, is_name.not_absolute, pieces, here, is_name.named]

/-- A name joined to a path is one more component. -/
theorem components_join (is_name : IsName n) :
    (p.join ⟨n⟩).components = p.components ++ [.name n] := by
  rw [join_eq is_name.not_absolute]
  obtain ⟨front_eq, none⟩ | ⟨before, front_eq, same⟩ := p.front_cases
  · rw [front_eq, String.empty_append, none, components_name is_name, List.nil_append]
  · have text : p.front ++ n = String.ofList (before ++ '/' :: n.toList) := by
      simp [front_eq, String.ext_iff]
    have name : (segmentsOf n.toList).filterMap componentOf = [.name n] := by
      simp [segmentsOf_whole is_name.whole, is_name.named]
    rw [text, components_slash, name, ← front_eq, same]

/-- Names joined to a path one after the other. -/
theorem components_foldl_join {names : List String} (are_names : ∀ n ∈ names, IsName n) (p : Path) :
    (names.foldl (fun p n => p.join ⟨n⟩) p).components = p.components ++ names.map .name := by
  induction names generalizing p with
  | nil => simp
  | cons n names ih =>
    obtain ⟨is_name, are_names⟩ := List.forall_mem_cons.mp are_names
    simp [ih are_names, components_join is_name]

/-- Whatever has no slash is the last piece of a path that it is joined to. -/
theorem exists_pieces (p : Path) : ∃ pieces, ∀ last : List Char, '/' ∉ last →
    segmentsOf (p.front.toList ++ last) = pieces ++ [last] := by
  obtain ⟨front_eq, -⟩ | ⟨before, front_eq, -⟩ := p.front_cases
  · refine ⟨[], fun last whole => ?_⟩
    rw [front_eq]
    exact segmentsOf_whole whole
  · refine ⟨segmentsOf before, fun last whole => ?_⟩
    simp [front_eq, segmentsOf_slash, segmentsOf_whole whole]

/-- A name without dots is its own stem. -/
theorem stemOf_plain {name : List Char} (plain : '.' ∉ name) : stemOf name = name := by
  have passed : ∀ c ∈ name.reverse, (c != '.') = true := by
    intro c mem
    rw [bne_iff_ne]
    rintro rfl
    exact plain (List.mem_reverse.mp mem)
  have none : (name.reverse ++ []).dropWhile (· != '.') = [] := List.dropWhile_append_of_pos passed
  rw [List.append_nil] at none
  rw [stemOf, none]
  rfl

/-- A name that has no extension gets one behind it. -/
theorem withExtension_join (is_name : IsName n) (plain : '.' ∉ n.toList)
    (extended : IsName (n ++ "." ++ extension)) :
    (p.join ⟨n⟩).withExtension extension = p.join ⟨n ++ "." ++ extension⟩ := by
  obtain ⟨pieces, last⟩ := p.exists_pieces
  have file : (p.join ⟨n⟩).fileName? = some n := by
    rw [fileName?, components_join is_name, List.getLast?_concat]
  have kept : dropBlank (p.join ⟨n⟩).segments.reverse = n.toList :: pieces.reverse := by
    have split : (p.join ⟨n⟩).segments = pieces ++ [n.toList] := by
      rw [join_eq is_name.not_absolute, segments, String.toList_append, last _ is_name.whole]
    rw [split, List.reverse_append, List.reverse_singleton, List.singleton_append]
    cases pieces.reverse with
    | nil => rfl
    | cons s more => rw [dropBlank, if_neg is_name.not_blank]
  have text : (n ++ "." ++ extension).toList = n.toList ++ '.' :: extension.toList := by simp
  -- The new last piece stands behind the same ones, so nothing of the text in front changes.
  have back : ((n.toList ++ '.' :: extension.toList) :: pieces.reverse).reverse =
      segmentsOf (p.front.toList ++ (n.toList ++ '.' :: extension.toList)) := by
    rw [last _ (text ▸ extended.whole), List.reverse_cons, List.reverse_reverse]
  rw [withExtension, file, kept]
  dsimp only
  rw [stemOf_plain plain, back, ofSegments, intercalate_segmentsOf, join_eq extended.not_absolute,
    ← text, ← String.toList_append, String.ofList_toList]

end Path

/-- The file name of a path gets an extension if it has none. -/
theorem Place.withExtension_path {place : Place} {n extension : String} (named : place.Named)
    (is_name : IsName n) (plain : '.' ∉ n.toList) (extended : IsName (n ++ "." ++ extension)) :
    (place ++ [n]).path.withExtension extension = (place ++ [n ++ "." ++ extension]).path := by
  rw [← join_path named is_name, Path.withExtension_join is_name plain extended,
    join_path named extended]

end Frontend
