import Mathlib
import Frontend.Proofs.Agreement

/-!
Where imports may be found. A list of spots that has everything which a root program and the
programs on the list may import bounds what can be looked at. So whether files have one name, and
whether detours can be needed, may be told from such a list.
-/
namespace Frontend.Importing

/-- A place that an import may be found at, and the program in the file that the import refers to,
if there is one. -/
abbrev Spot : Type := Place × Option Program

/-- Where an importer finds a file. -/
def spot? (fs : FileSystem) (importer : Source) (file : Path) : Option Spot :=
  (other? fs importer file).map (·, Program.inFile? fs file)

/-- Where an import may be found, in the order in which it is looked for. -/
def spots (setting : Setting) (importer : Source) (i : Import) : List Spot :=
  (candidates setting importer i).filterMap (spot? setting.fs importer)

/-- A list of spots with all that a root program, and the programs on the list, may import. -/
structure Encloses (setting : Setting) (root : Program) (table : List Spot) : Prop where
  root : ∀ i ∈ root.imports, ∀ spot ∈ spots setting root.source i, spot ∈ table
  programs : ∀ entry ∈ table, ∀ p ∈ entry.2,
    ∀ i ∈ p.imports, ∀ spot ∈ spots setting p.source i, spot ∈ table

variable {setting : Setting} {fs : FileSystem} {root p : Program} {table : List Spot}
  {barred here : List Place} {importer : Source} {file : Path} {place : Place} {i : Import}
  {t : Target}

theorem mem_spots (candidate : file ∈ candidates setting importer i)
    (other : other? setting.fs importer file = some place) :
    (place, Program.inFile? setting.fs file) ∈ spots setting importer i := by
  refine List.mem_filterMap.mpr ⟨file, candidate, ?_⟩
  rw [spot?, other]
  rfl

theorem mem_spots_of_target (found : t ∈ targets setting importer i) :
    (t.1, some t.2) ∈ spots setting importer i := by
  obtain ⟨file, candidate, other, inFile⟩ := mem_targets.mp found
  exact inFile ▸ mem_spots candidate other

/-- There are no more targets than spots. -/
theorem length_targets_le : (targets setting importer i).length ≤ (spots setting importer i).length := by
  have fewer : ∀ files : List Path, (files.filterMap (target? setting.fs importer)).length ≤
      (files.filterMap (spot? setting.fs importer)).length := by
    intro files
    induction files with
    | nil => exact Nat.le_refl _
    | cons file files ih =>
      simp only [List.filterMap_cons, target?, spot?]
      cases other? setting.fs importer file with
      | none => exact ih
      | some place =>
        cases Program.inFile? setting.fs file with
        | none => exact Nat.le_succ_of_le ih
        | some p => exact Nat.succ_le_succ ih
  exact fewer _

/-- Where there is no choice, no detour is made. -/
theorem not_detour_of_single (single : (spots setting importer i).length ≤ 1) :
    ¬ Detour setting barred here importer i := by
  rintro ⟨before, t, after, split, _, u, passed, _⟩
  have few := Nat.le_trans length_targets_le single
  rw [split, List.length_append, List.length_cons] at few
  have some := List.length_pos_of_mem passed
  omega

namespace Encloses

theorem reached (h : Encloses setting root table) (reached : Reached setting root p) :
    p = root.unresolved ∨ ∃ place, (place, some p) ∈ table := by
  induction reached with
  | root => exact .inl rfl
  | importing _ mem found ih =>
    have spot := mem_spots_of_target found
    obtain rfl | ⟨place, listed⟩ := ih
    · exact .inr ⟨_, h.root _ mem _ spot⟩
    · exact .inr ⟨_, h.programs _ listed _ rfl _ mem _ spot⟩

theorem looked (h : Encloses setting root table) (looked : Looked setting root place file) :
    (place, Program.inFile? setting.fs file) ∈ table := by
  obtain ⟨p, reached, i, mem, candidate, other⟩ := looked
  have spot := mem_spots candidate other
  obtain rfl | ⟨_, listed⟩ := h.reached reached
  · exact h.root i mem _ spot
  · exact h.programs _ listed p rfl i mem _ spot

theorem met (h : Encloses setting root table) (met : Met setting root t) :
    (t.1, some t.2) ∈ table := by
  obtain ⟨file, looked, inFile⟩ := met
  exact inFile ▸ h.looked looked

/-- No file has two names if each place is on the list once. -/
theorem oneName (h : Encloses setting root table) (once : (table.map (·.1)).Nodup) :
    OneName setting root barred := by
  intro place _ file file' looked looked'
  exact (Prod.mk.inj (List.inj_on_of_nodup_map once (h.looked looked) (h.looked looked') rfl)).2

/-- No detour is needed if no import of the programs on the list leaves a choice. -/
theorem straight (h : Encloses setting root table) (single : ∀ entry ∈ table, ∀ p ∈ entry.2,
    ∀ i ∈ p.imports, (spots setting p.source i).length ≤ 1) : Straight setting root barred :=
  fun _ p met i mem => not_detour_of_single (single _ (h.met met) p rfl i mem)

end Encloses

/-- A file at a place, and the program in it. -/
structure Stored (fs : FileSystem) (file : String) (place : Place) (p : Program) : Prop where
  canonical : fs.canonical ⟨file⟩ = .ok place
  inFile : Program.inFile? fs ⟨file⟩ = some p

/-- A file that parses holds the program of its absolute name. -/
theorem stored_of_locate {file : String} {bytes : List UInt8} {decls : List Toplevel}
    (whole : Path.absolute? ⟨file⟩ fs.current = some ⟨file⟩)
    (short : file.utf8ByteSize ≤ FileSystem.pathLimit)
    (located : fs.locate ⟨file⟩ = .ok (place, .file bytes))
    (parsed : (parse ⟨file, bytes, true⟩).result = .ok decls) :
    Stored fs file place (.ofDecls ⟨file, bytes, true⟩ decls) := by
  have canonical : fs.canonical ⟨file⟩ = .ok place := by
    rw [FileSystem.canonical, located]
    rfl
  have loaded : Source.fromFile fs ⟨file⟩ = .ok ⟨file, bytes, true⟩ := by
    have readable : ¬ file.utf8ByteSize > FileSystem.pathLimit := by omega
    rw [Source.fromFile, whole]
    simp only [FileSystem.read, if_neg readable, located]
    rfl
  exact ⟨canonical, Program.inFile?_eq_some.mpr ⟨_, decls, loaded, parsed, rfl⟩⟩

namespace Stored

variable {file : String} {own : Place}

/-- What a file finds in another one. -/
theorem spot?_file (h : Stored fs file place p) (there : fs.canonical ⟨importer.name⟩ = .ok own)
    (foreign : own ≠ place) (apart : Path.same ⟨file⟩ ⟨importer.name⟩ = false) :
    spot? fs importer ⟨file⟩ = some (place, some p) := by
  have other : other? fs importer ⟨file⟩ = some place := by
    rw [other?, if_neg (by simp [apart]), h.canonical]
    exact if_neg (by simp [there, foreign, Except.toOption])
  rw [spot?, other, h.inFile]
  rfl

end Stored

/-- Nothing is found in a file that is not there. -/
theorem spot?_of_missing {e : FileError} (missing : fs.locate file = .error e) :
    spot? fs importer file = none := by
  have nowhere : fs.canonical file = .error e := by
    rw [FileSystem.canonical, missing]
    rfl
  rw [spot?, other?, nowhere]
  cases file.same ⟨importer.name⟩ <;> rfl

section Files

/-- An import of `a` on a line of its own. -/
def importLine (offset line length : Nat) (relative : Bool) (parents : List String) : Import :=
  ⟨⟨⟨offset, line, 1⟩, ⟨offset + length, line, length + 1⟩⟩, relative, parents, ["a"]⟩

/-- A file with one import. -/
def importing (file code : String) (relative : Bool) (parents : List String) : Program :=
  .ofDecls ⟨file, Utf8.ofString code, true⟩
    [.importing (importLine 0 1 code.length relative parents)]

/-- A file that has an `a`. -/
def defining (file : String) : Program :=
  .ofDecls ⟨file, Utf8.ofString "type a b", true⟩
    [.typedef ⟨⟨0, 1, 1⟩, "a", ⟨⟨⟨7, 1, 8⟩, ⟨8, 1, 9⟩⟩, .named "b"⟩⟩]

theorem spots_absolute {offset line length : Nat} {parents : List String} :
    spots setting importer (importLine offset line length false parents) =
      (setting.libraries.map fun directory => candidate directory parents).filterMap
        (spot? setting.fs importer) := rfl

theorem spots_relative {offset line length : Nat} {parents : List String} {directory : Path}
    (start : relativeRoot? setting importer = some directory) :
    spots setting importer (importLine offset line length true parents) =
      (spot? setting.fs importer (candidate directory parents)).toList := by
  have files : candidates setting importer (importLine offset line length true parents) =
      [candidate directory parents] := by
    simp [candidates, importLine, start]
  rw [spots, files, List.filterMap_cons]
  cases spot? setting.fs importer (candidate directory parents) <;> rfl

@[simp] theorem moduleOf_importLine {offset line length : Nat} {relative : Bool}
    {parents : List String} : moduleOf (importLine offset line length relative parents) place p =
      ⟨none, ["a"], false, place, p⟩ := rfl

@[simp] theorem imports_defining {file : String} : (defining file).imports = [] := rfl

/-- A program with imports that is no file. -/
def memo (code : String) (imports : List Import) : Program :=
  .ofDecls (.inMemory "m" (Utf8.ofString code)) (imports.map .importing)

@[simp] theorem imports_memo {code : String} {imports : List Import} :
    (memo code imports).imports = imports := by
  simp [memo, Program.imports, Program.ofDecls, Toplevel.imports, List.filterMap_map]

/-- What a program that is no file finds. -/
theorem Stored.spot?_memo {file code : String} {imports : List Import} (h : Stored fs file place p)
    (apart : Path.same ⟨file⟩ ⟨"m"⟩ = false) :
    spot? fs (memo code imports).source ⟨file⟩ = some (place, some p) := by
  have named : (memo code imports).source.name = "m" := rfl
  have nowhere : (memo code imports).source.onDisk = false := rfl
  have other : other? fs (memo code imports).source ⟨file⟩ = some place := by
    rw [other?, named, if_neg (by simp [apart]), h.canonical]
    exact if_neg (by simp [nowhere])
  rw [spot?, other, h.inFile]
  rfl

@[simp] theorem modules_memo {code : String} {imports : List Import} :
    (memo code imports).modules = [] := rfl

@[simp] theorem name_defining {file : String} : (defining file).source.name = file := rfl

theorem parse_defining (file : String) :
    (parse ⟨file, Utf8.ofString "type a b", true⟩).result = .ok (defining file).decls := by cbv

theorem parse_importing_b (file : String) : (parse ⟨file, Utf8.ofString "import .b.a", true⟩).result =
    .ok (importing file "import .b.a" true ["b"]).decls := by cbv

/-- Two libraries. In the first one `f` and `x` import each other; the second one has them, too. -/
def shelves : FileSystem where
  entries := [(["k"], .directory), (["l"], .directory),
    (["k", "f.dcs"], .file (Utf8.ofString "import x.a")),
    (["k", "g.dcs"], .file (Utf8.ofString "import y.a")),
    (["k", "x.dcs"], .file (Utf8.ofString "import f.a")),
    (["l", "f.dcs"], .file (Utf8.ofString "type a b")),
    (["l", "x.dcs"], .file (Utf8.ofString "type a b")),
    (["l", "y.dcs"], .file (Utf8.ofString "type a b"))]
  current := ⟨"/"⟩

/-- A project with a link to a file of a library, which imports what is beside its name. -/
def desk : FileSystem where
  entries := [(["p"], .directory), (["p", "a.dcs"], .link ⟨"/l/q/a.dcs"⟩),
    (["p", "b.dcs"], .file (Utf8.ofString "type a b")), (["l"], .directory),
    (["l", "q"], .directory), (["l", "q", "a.dcs"], .file (Utf8.ofString "import .b.a"))]
  current := ⟨"/p"⟩

/-- Both libraries of the shelves. -/
def shelving (project : Option Path) : Setting := ⟨shelves, [⟨"/k"⟩, ⟨"/l"⟩], project⟩

/-- The library beside the desk. -/
def desking : Setting := ⟨desk, [⟨"/l"⟩], some ⟨"/p"⟩⟩

def fileF : Program := importing "/k/f.dcs" "import x.a" false ["x"]

def fileG : Program := importing "/k/g.dcs" "import y.a" false ["y"]

def fileX : Program := importing "/k/x.dcs" "import f.a" false ["f"]

@[simp] theorem imports_fileF : fileF.imports = [importLine 0 1 10 false ["x"]] := rfl

@[simp] theorem imports_fileG : fileG.imports = [importLine 0 1 10 false ["y"]] := rfl

@[simp] theorem imports_fileX : fileX.imports = [importLine 0 1 10 false ["f"]] := rfl

@[simp] theorem shelved_names :
    fileF.source.name = "/k/f.dcs" ∧ fileG.source.name = "/k/g.dcs" ∧
      fileX.source.name = "/k/x.dcs" :=
  ⟨rfl, rfl, rfl⟩

@[simp] theorem shelved_modules : fileF.modules = [] ∧ fileX.modules = [] :=
  ⟨rfl, rfl⟩

/-- The linked file under either of its names. -/
def fileA (file : String) : Program := importing file "import .b.a" true ["b"]

@[simp] theorem imports_fileA {file : String} :
    (fileA file).imports = [importLine 0 1 11 true ["b"]] := rfl

theorem shelf_paths :
    candidate ⟨"/k"⟩ ["f"] = ⟨"/k/f.dcs"⟩ ∧ candidate ⟨"/l"⟩ ["f"] = ⟨"/l/f.dcs"⟩ ∧
      candidate ⟨"/k"⟩ ["g"] = ⟨"/k/g.dcs"⟩ ∧ candidate ⟨"/l"⟩ ["g"] = ⟨"/l/g.dcs"⟩ ∧
      candidate ⟨"/k"⟩ ["x"] = ⟨"/k/x.dcs"⟩ ∧ candidate ⟨"/l"⟩ ["x"] = ⟨"/l/x.dcs"⟩ ∧
      candidate ⟨"/k"⟩ ["y"] = ⟨"/k/y.dcs"⟩ ∧ candidate ⟨"/l"⟩ ["y"] = ⟨"/l/y.dcs"⟩ := by
  decide

theorem stored_fileF : Stored shelves "/k/f.dcs" ["k", "f.dcs"] fileF :=
  stored_of_locate rfl (by decide) (by cbv) (by cbv)

theorem stored_fileG : Stored shelves "/k/g.dcs" ["k", "g.dcs"] fileG :=
  stored_of_locate rfl (by decide) (by cbv) (by cbv)

theorem stored_fileX : Stored shelves "/k/x.dcs" ["k", "x.dcs"] fileX :=
  stored_of_locate rfl (by decide) (by cbv) (by cbv)

theorem stored_f : Stored shelves "/l/f.dcs" ["l", "f.dcs"] (defining "/l/f.dcs") :=
  stored_of_locate rfl (by decide) (by cbv) (parse_defining _)

theorem stored_x : Stored shelves "/l/x.dcs" ["l", "x.dcs"] (defining "/l/x.dcs") :=
  stored_of_locate rfl (by decide) (by cbv) (parse_defining _)

theorem stored_y : Stored shelves "/l/y.dcs" ["l", "y.dcs"] (defining "/l/y.dcs") :=
  stored_of_locate rfl (by decide) (by cbv) (parse_defining _)

/-- The second library has no `g`, and the first one no `y`. -/
theorem spot?_unshelved :
    spot? shelves importer ⟨"/l/g.dcs"⟩ = none ∧ spot? shelves importer ⟨"/k/y.dcs"⟩ = none := by
  have missing_g : shelves.locate ⟨"/l/g.dcs"⟩ = .error .notFound := by cbv
  have missing_y : shelves.locate ⟨"/k/y.dcs"⟩ = .error .notFound := by cbv
  exact ⟨spot?_of_missing missing_g, spot?_of_missing missing_y⟩

variable {code : String} {imports : List Import} {offset line length : Nat} {project : Option Path}

/-- Where the imports of a program that is no file may be found. -/
theorem spots_memo :
    spots (shelving project) (memo code imports).source
          (importLine offset line length false ["f"]) =
        [(["k", "f.dcs"], some fileF), (["l", "f.dcs"], some (defining "/l/f.dcs"))] ∧
      spots (shelving project) (memo code imports).source
          (importLine offset line length false ["g"]) =
        [(["k", "g.dcs"], some fileG)] ∧
      spots (shelving project) (memo code imports).source
          (importLine offset line length false ["x"]) =
        [(["k", "x.dcs"], some fileX), (["l", "x.dcs"], some (defining "/l/x.dcs"))] ∧
      spots (shelving project) (memo code imports).source
          (importLine offset line length false ["y"]) =
        [(["l", "y.dcs"], some (defining "/l/y.dcs"))] := by
  simp [spots_absolute, shelving, shelf_paths, spot?_unshelved, stored_fileF.spot?_memo rfl,
    stored_f.spot?_memo rfl, stored_fileG.spot?_memo rfl, stored_fileX.spot?_memo rfl,
    stored_x.spot?_memo rfl, stored_y.spot?_memo rfl]

/-- Where the imports of the first library may be found. -/
theorem spots_shelved :
    spots (shelving project) fileF.source (importLine offset line length false ["x"]) =
        [(["k", "x.dcs"], some fileX), (["l", "x.dcs"], some (defining "/l/x.dcs"))] ∧
      spots (shelving project) fileG.source (importLine offset line length false ["y"]) =
        [(["l", "y.dcs"], some (defining "/l/y.dcs"))] ∧
      spots (shelving project) fileX.source (importLine offset line length false ["f"]) =
        [(["k", "f.dcs"], some fileF), (["l", "f.dcs"], some (defining "/l/f.dcs"))] := by
  have found_X : spot? shelves fileF.source _ = _ :=
    stored_fileX.spot?_file stored_fileF.canonical (by decide) rfl
  have found_x : spot? shelves fileF.source _ = _ :=
    stored_x.spot?_file stored_fileF.canonical (by decide) rfl
  have found_y : spot? shelves fileG.source _ = _ :=
    stored_y.spot?_file stored_fileG.canonical (by decide) rfl
  have found_F : spot? shelves fileX.source _ = _ :=
    stored_fileF.spot?_file stored_fileX.canonical (by decide) rfl
  have found_f : spot? shelves fileX.source _ = _ :=
    stored_f.spot?_file stored_fileX.canonical (by decide) rfl
  simp [spots_absolute, shelving, shelf_paths, spot?_unshelved, found_X, found_x, found_y, found_F,
    found_f]

theorem stored_linked : Stored desk "/p/a.dcs" ["l", "q", "a.dcs"] (fileA "/p/a.dcs") :=
  stored_of_locate rfl (by decide) (by cbv) (parse_importing_b _)

theorem stored_fileA : Stored desk "/l/q/a.dcs" ["l", "q", "a.dcs"] (fileA "/l/q/a.dcs") :=
  stored_of_locate rfl (by decide) (by cbv) (parse_importing_b _)

theorem stored_b : Stored desk "/p/b.dcs" ["p", "b.dcs"] (defining "/p/b.dcs") :=
  stored_of_locate rfl (by decide) (by cbv) (parse_defining _)

/-- Where the imports of a program that is no file may be found beside the desk. -/
theorem spots_desk :
    spots desking (memo code imports).source (importLine offset line length true ["a"]) =
        [(["l", "q", "a.dcs"], some (fileA "/p/a.dcs"))] ∧
      spots desking (memo code imports).source (importLine offset line length false ["q", "a"]) =
        [(["l", "q", "a.dcs"], some (fileA "/l/q/a.dcs"))] := by
  have paths : candidate ⟨"/p"⟩ ["a"] = ⟨"/p/a.dcs"⟩ ∧
      candidate ⟨"/l"⟩ ["q", "a"] = ⟨"/l/q/a.dcs"⟩ := by
    decide
  have start : relativeRoot? desking (memo code imports).source = some ⟨"/p"⟩ := rfl
  rw [spots_relative start]
  simp [spots_absolute, desking, paths, stored_linked.spot?_memo rfl, stored_fileA.spot?_memo rfl]

/-- The linked file looks for `b` beside the name that it is found under. -/
theorem spots_linked :
    spots desking (fileA "/p/a.dcs").source (importLine offset line length true ["b"]) =
        [(["p", "b.dcs"], some (defining "/p/b.dcs"))] ∧
      spots desking (fileA "/l/q/a.dcs").source (importLine offset line length true ["b"]) = [] := by
  have paths : candidate ⟨"/p"⟩ ["b"] = ⟨"/p/b.dcs"⟩ ∧ candidate ⟨"/l/q"⟩ ["b"] = ⟨"/l/q/b.dcs"⟩ := by
    decide
  have start_p : relativeRoot? desking (fileA "/p/a.dcs").source = some ⟨"/p"⟩ := by decide
  have start_l : relativeRoot? desking (fileA "/l/q/a.dcs").source = some ⟨"/l/q"⟩ := by
    decide
  have found : spot? desk (fileA "/p/a.dcs").source _ = _ :=
    stored_b.spot?_file stored_linked.canonical (by decide) rfl
  have missing : desk.locate ⟨"/l/q/b.dcs"⟩ = .error .notFound := by cbv
  rw [spots_relative start_p, spots_relative start_l]
  simp [desking, paths, found, spot?_of_missing missing]

end Files

end Frontend.Importing
