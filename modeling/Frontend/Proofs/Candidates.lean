import Frontend.Proofs.ImportGraph

/-!
Where the files of imports are. Whatever directory a search starts in, the names on an import path
go down from there, one below the other, and the extension goes behind the last of them. So the file
is below the directory, and imports with other paths have other files.
-/
namespace Frontend

namespace Importing

section Named

variable {front front' : List String} {last last' : String}
variable (front_names : ∀ n ∈ front, IsName n ∧ '.' ∉ n.toList) (is_name : IsName last)
  (plain : '.' ∉ last.toList) (directory : Path)

include is_name plain

/-- The names of a path below a directory, with the extension behind the last one. -/
theorem candidate_concat : candidate directory (front ++ [last]) =
    (front.foldl (fun p n => p.join ⟨n⟩) directory).join ⟨last ++ "." ++ Library.extension⟩ := by
  rw [candidate, List.foldl_append, List.foldl_cons, List.foldl_nil,
    Path.withExtension_join is_name plain is_name.withExtension]

/-- All of the path stands in front of the extension. -/
theorem text_candidate : (candidate directory (front ++ [last])).text =
    ((front ++ [last]).foldl (fun p n => p.join ⟨n⟩) directory).text ++ ".dcs" := by
  rw [candidate_concat is_name plain, List.foldl_append, List.foldl_cons, List.foldl_nil,
    Path.join_eq is_name.not_absolute, Path.join_eq is_name.withExtension.not_absolute]
  simp [Library.extension, String.append_assoc]

include front_names

theorem components_candidate : (candidate directory (front ++ [last])).components =
    directory.components ++ (front.map .name ++ [.name (last ++ ".dcs")]) := by
  have names : ∀ n ∈ front, IsName n := fun n mem => (front_names n mem).1
  rw [candidate_concat is_name plain, Path.components_join is_name.withExtension,
    Path.components_foldl_join names, List.append_assoc]
  simp [Library.extension, String.append_assoc]

theorem below?_candidate : (candidate directory (front ++ [last])).below? directory =
    some (front.map .name ++ [.name (last ++ ".dcs")]) := by
  have components := components_candidate front_names is_name plain directory
  have starts : (candidate directory (front ++ [last])).startsWith directory = true := by
    rw [Path.startsWith, components]
    exact List.isPrefixOf_iff_prefix.mpr (List.prefix_append _ _)
  rw [Path.below?, if_pos starts, components, List.drop_left]

/-- The components of a file tell the path that leads to it. -/
theorem parents_unique (front_names' : ∀ n ∈ front', IsName n ∧ '.' ∉ n.toList)
    (is_name' : IsName last') (plain' : '.' ∉ last'.toList)
    (same : (candidate directory (front ++ [last])).same (candidate directory (front' ++ [last']))) :
    front ++ [last] = front' ++ [last'] := by
  rw [Path.same, beq_iff_eq, components_candidate front_names is_name plain,
    components_candidate front_names' is_name' plain'] at same
  obtain ⟨fronts, lasts⟩ := List.append_inj' (List.append_cancel_left same) rfl
  have front_eq := List.map_injective_iff.mpr (fun _ _ => Component.name.inj) fronts
  have last_eq : last = last' := by simpa using lasts
  rw [front_eq, last_eq]

end Named

/-- The file of the import below a directory: the names of the import go down from there and none of
them leads anywhere else, and the extension stands behind what they make, with nothing lost. -/
structure Contained (directory : Path) (parents : List String) : Prop where
  names : ∀ n ∈ parents, n ∉ ["", ".", ".."] ∧ '/' ∉ n.toList ∧ '.' ∉ n.toList
  components : ∃ front last, parents = front ++ [last] ∧
    (candidate directory parents).components =
      directory.components ++ (front.map .name ++ [.name (last ++ ".dcs")])
  below : ∃ names, (candidate directory parents).below? directory = some names ∧
    ∀ c ∈ names, ∃ n, c = .name n
  uncut : (candidate directory parents).text =
    (parents.foldl (fun p n => p.join ⟨n⟩) directory).text ++ ".dcs"

theorem contained_of_names {front : List String} {last : String}
    (front_names : ∀ n ∈ front, IsName n ∧ '.' ∉ n.toList) (is_name : IsName last)
    (plain : '.' ∉ last.toList) (directory : Path) : Contained directory (front ++ [last]) where
  names := by
    have all : ∀ n ∈ front ++ [last], IsName n ∧ '.' ∉ n.toList :=
      List.forall_mem_append.mpr ⟨front_names, List.forall_mem_singleton.mpr ⟨is_name, plain⟩⟩
    intro n mem
    obtain ⟨n_name, n_plain⟩ := all n mem
    refine ⟨?_, n_name.whole, n_plain⟩
    simp only [List.mem_cons, List.not_mem_nil, or_false]
    rintro (rfl | rfl | rfl)
    · exact n_name.ne_nil rfl
    · exact n_plain (by decide)
    · exact n_plain (by decide)
  components := ⟨front, last, rfl, components_candidate front_names is_name plain directory⟩
  below := by
    refine ⟨_, below?_candidate front_names is_name plain directory, fun c mem => ?_⟩
    obtain mem | mem := List.mem_append.mp mem
    · obtain ⟨n, _, rfl⟩ := List.mem_map.mp mem
      exact ⟨n, rfl⟩
    · exact ⟨_, List.mem_singleton.mp mem⟩
  uncut := text_candidate is_name plain directory

/-- Imports lead below the directory that they are sought in, and those with other paths to other
files there. -/
theorem imports_contained {source : Source} {decls : List Toplevel} {i : Import}
    (parsed : (parse source).result = .ok decls) (mem : i ∈ Toplevel.imports decls)
    (directory : Path) : Contained directory i.parents ∧
      ∀ source' decls' j, (parse source').result = .ok decls' → j ∈ Toplevel.imports decls' →
        i.parents ≠ j.parents →
          (candidate directory i.parents).same (candidate directory j.parents) = false := by
  obtain ⟨front, last, eq, front_names, is_name, plain⟩ := parents_of_import parsed mem
  rw [eq]
  refine ⟨contained_of_names front_names is_name plain directory, ?_⟩
  intro source' decls' j parsed' mem' other
  obtain ⟨front', last', eq', front_names', is_name', plain'⟩ := parents_of_import parsed' mem'
  rw [eq'] at other ⊢
  rw [← Bool.not_eq_true]
  intro same
  exact other (parents_unique front_names is_name plain directory front_names' is_name' plain' same)

/-- Two imports of a file, whatever the name of the directory says. -/
theorem imports_contained_above :
    Contained ⟨"lib/.."⟩ ["a", "b"] ∧
      (candidate ⟨"lib/.."⟩ ["a", "b"]).same (candidate ⟨"lib/.."⟩ ["b"]) = false := by
  have parsed : (parse (.inMemory "a" (Utf8.ofString "import a.b.c\nimport b.c"))).result =
      .ok [.importing ⟨⟨⟨0, 1, 1⟩, ⟨12, 1, 13⟩⟩, false, ["a", "b"], ["c"]⟩,
        .importing ⟨⟨⟨13, 2, 1⟩, ⟨23, 2, 11⟩⟩, false, ["b"], ["c"]⟩] := by cbv
  obtain ⟨contained, others⟩ := imports_contained parsed List.mem_cons_self ⟨"lib/.."⟩
  have other := others _ _ _ parsed (List.mem_cons_of_mem _ List.mem_cons_self) (by decide)
  exact ⟨contained, other⟩

end Importing

end Frontend
