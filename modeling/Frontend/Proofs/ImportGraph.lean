import Mathlib.Data.List.Forall2
import Frontend.Proofs.Joins
import Frontend.Proofs.PlacedFiles
import Frontend.Proofs.Targets

/-!
Projects and what their programs import. Where imports are relative, the path of an import alone
tells which file it names. A program reaches those that are in the files that its imports name, and
so on; files lead to files, and the graph of that may have cycles or files without a program.
-/
namespace Frontend

/-- The place of the file that a relative import names in a project. -/
def Import.file (base : Place) (i : Import) : Place :=
  base ++ i.parents.dropLast ++ [i.parents.getLastD "" ++ "." ++ Library.extension]

theorem Import.file_ne_nil (base : Place) (i : Import) : i.file base ≠ [] :=
  List.append_ne_nil_of_right_ne_nil _ (List.cons_ne_nil _ _)

namespace Program

/-- The program in a file that can be read and parses. -/
def ofFile? (fs : FileSystem) (place : Place) : Option Program :=
  match Source.fromFile fs place.path with
  | .error _ => none
  | .ok source => (parse source).result.toOption.map (ofDecls source)

/-- A program that a root program imports, directly or not, or the root program itself. -/
inductive Reaches (fs : FileSystem) (base : Place) (root : Program) : Program → Prop
  | root : Reaches fs base root root
  | importing {p q : Program} {i : Import} (reached : Reaches fs base root p) (mem : i ∈ p.imports)
      (found : ofFile? fs (i.file base) = some q) : Reaches fs base root q

/-- The file of one name has an import that names the file of another name. -/
def Leads (fs : FileSystem) (base : Place) (root : Program) (importer file : String) : Prop :=
  ∃ p, root.Reaches fs base p ∧ p.source.name = importer ∧
    ∃ i ∈ p.imports, (i.file base).path.text = file

/-- A program that is held by another one: the program itself, or one that a module holds. -/
inductive Holds : Program → Program → Prop
  | self {p : Program} : Holds p p
  | module {p q : Program} {m : Module} (mem : m ∈ p.modules) (held : Holds m.program q) :
      Holds p q

/-- A module that belongs to an import: it says what is imported, and holds the program of the file
that the import names. -/
structure Stands (fs : FileSystem) (base : Place) (i : Import) (m : Module) : Prop where
  module : m = Importing.moduleOf i (i.file base) m.program
  program : ofFile? fs (i.file base) = some (.ofDecls m.program.source m.program.decls)

end Program

/-- A root program that is a file on disk, named by its canonical path, or that is no file and has
no absolute path as its name. Its project is a directory: that of the file, or the current one. -/
inductive Source.RootIn (fs : FileSystem) (base : Place) (source : Source) : Prop
  | file {name : String} {bytes : List UInt8} (onDisk : source.onDisk = true)
      (located : fs.locate ⟨source.name⟩ = .ok (base ++ [name], .file bytes))
      (canonical : (base ++ [name]).path.text = source.name) : RootIn fs base source
  | memory (inMemory : source.onDisk = false) (free : Path.isAbsolute ⟨source.name⟩ = false)
      (located : fs.locate fs.current = .ok (base, .directory))
      (canonical : base.path = fs.current) : RootIn fs base source

/-- A project without symbolic links whose programs have relative imports only. -/
structure Program.Project (fs : FileSystem) (base : Place) (root : Program) : Prop where
  linkless : fs.Linkless
  rootIn : root.source.RootIn fs base
  parsed : (parse root.source).result = .ok root.decls
  fresh : root.modules = []
  relative : ∀ p, root.Reaches fs base p → ∀ i ∈ p.imports, i.relative = true

/-- Where a source of a project is: in a file below the directory of the project that it is named
after, or nowhere. -/
inductive Source.In (fs : FileSystem) (base : Place) (source : Source) : Prop
  | file {place : Place} {name : String} (onDisk : source.onDisk = true)
      (named : Place.Named (base ++ place ++ [name]))
      (canonical : (base ++ place ++ [name]).path.text = source.name)
      (located : fs.canonical ⟨source.name⟩ = .ok (base ++ place ++ [name])) : In fs base source
  | memory (inMemory : source.onDisk = false) (free : Path.isAbsolute ⟨source.name⟩ = false) :
      In fs base source

/-- A character of an identifier is neither a slash nor a dot. -/
theorem Lexeme.isIdentRest_ne {c : Char} (h : isIdentRest c = true) : c ≠ '/' ∧ c ≠ '.' := by
  constructor <;> rintro rfl <;> revert h <;> decide

theorem Lexicon.Name.not_mem {text : List Char} (h : Name text) :
    text ≠ [] ∧ '/' ∉ text ∧ '.' ∉ text := by
  have all : ∀ d ∈ text, d ≠ '/' ∧ d ≠ '.' :=
    fun d mem => Lexeme.isIdentRest_ne (h.forall_mem d mem)
  have some : text ≠ [] := by
    obtain ⟨letter, rest⟩ := h
    exact List.cons_ne_nil _ _
  exact ⟨some, fun mem => (all _ mem).1 rfl, fun mem => (all _ mem).2 rfl⟩

/-- An identifier can be the name of a file or of a directory, and has no extension. -/
theorem Lexicon.IsWord.isName {n : String} (h : IsWord .ident n.toList) :
    IsName n ∧ '.' ∉ n.toList := by
  have chars : n.toList ≠ [] ∧ '/' ∉ n.toList ∧ '.' ∉ n.toList := by
    generalize n.toList = text at h
    generalize kind_eq : Token.Kind.ident = kind at h
    cases h with
    | ident name free => exact name.not_mem
    | typeVariable name => simpa using name.not_mem.2
    | spelled only =>
      subst kind_eq
      exact absurd rfl only
    | _ => cases kind_eq
  obtain ⟨some, slash, dot⟩ := chars
  have here : n.toList ≠ ['.'] := fun eq => dot (eq ▸ List.mem_cons_self)
  have up : n.toList ≠ ['.', '.'] := fun eq => dot (eq ▸ List.mem_cons_self)
  refine ⟨⟨slash, ?_⟩, dot⟩
  rw [Path.componentOf, if_neg (not_or.mpr ⟨some, here⟩), if_neg up, String.ofList_toList]

/-- The path of an import is made of names without an extension, and there is a last one. -/
theorem parents_of_import {source : Source} {decls : List Toplevel} {i : Import}
    (parsed : (parse source).result = .ok decls) (mem : i ∈ Toplevel.imports decls) :
    ∃ front last, i.parents = front ++ [last] ∧ (∀ n ∈ front, IsName n ∧ '.' ∉ n.toList) ∧
      IsName last ∧ '.' ∉ last.toList := by
  obtain ⟨⟨some, words⟩, _⟩ := path_of_import parsed mem
  obtain ⟨front, last, eq⟩ := (List.eq_nil_or_concat i.parents).resolve_left some
  rw [List.concat_eq_append] at eq
  have names : ∀ n ∈ i.parents, IsName n ∧ '.' ∉ n.toList := fun n mem => (words n mem).isName
  rw [eq, List.forall_mem_append, List.forall_mem_singleton] at names
  exact ⟨front, last, eq, names⟩

/-- A name with an extension is a name. -/
theorem IsName.withExtension {n : String} (h : IsName n) :
    IsName (n ++ "." ++ Library.extension) := by
  have text : (n ++ "." ++ Library.extension).toList = n.toList ++ ['.', 'd', 'c', 's'] := by
    simp [Library.extension]
  have size : 4 ≤ (n ++ "." ++ Library.extension).toList.length := by simp [text]
  constructor
  · rw [text]
    simpa using h.whole
  · have some : ∀ short : List Char, short.length < 4 →
        (n ++ "." ++ Library.extension).toList ≠ short := by
      rintro short less rfl
      omega
    rw [Path.componentOf, if_neg (not_or.mpr ⟨some _ (by decide), some _ (by decide)⟩),
      if_neg (some _ (by decide)), String.ofList_toList]

namespace Program

variable {fs : FileSystem} {base place : Place} {root p q : Program} {i : Import}

/-- A program in a file is what is parsed of a source. -/
theorem ofFile?_eq_some : ofFile? fs place = some p ↔ ∃ source decls,
    Source.fromFile fs place.path = .ok source ∧ (parse source).result = .ok decls ∧
      p = ofDecls source decls :=
  inFile?_eq_some

/-- A source in a file is named after the place of the file, and is found there. -/
theorem source_of_fromFile (linkless : fs.Linkless) (named : place.Named) (below : place ≠ [])
    {source : Source} (found : Source.fromFile fs place.path = .ok source) :
    source.onDisk = true ∧ source.name = place.path.text ∧ fs.canonical place.path = .ok place := by
  rw [Source.fromFile, Place.absolute?_path named below] at found
  dsimp only at found
  cases bytes : fs.read place.path with
  | error e =>
    rw [bytes] at found
    cases found
  | ok code =>
    rw [bytes] at found
    cases found
    refine ⟨rfl, rfl, ?_⟩
    unfold FileSystem.read at bytes
    split at bytes
    · cases bytes
    split at bytes
    next there _ located =>
      rw [FileSystem.canonical, located, FileSystem.eq_of_locate_path linkless named below located]
      rfl
    next => cases bytes
    next => cases bytes

namespace Project

variable (project : root.Project fs base)

include project

theorem base_named : base.Named := by
  cases project.rootIn with
  | file onDisk located canonical =>
    exact (Place.named_append_singleton.mp (FileSystem.named_of_locate located)).1
  | memory inMemory free located canonical => exact FileSystem.named_of_locate located

theorem parsed_of_reaches (reached : root.Reaches fs base p) :
    (parse p.source).result = .ok p.decls := by
  cases reached with
  | root => exact project.parsed
  | importing reached mem found =>
    obtain ⟨source, decls, _, parsed, rfl⟩ := ofFile?_eq_some.mp found
    exact parsed

theorem fresh_of_reaches (reached : root.Reaches fs base p) : p.modules = [] := by
  cases reached with
  | root => exact project.fresh
  | importing reached mem found =>
    obtain ⟨source, decls, _, parsed, rfl⟩ := ofFile?_eq_some.mp found
    rfl

variable (reached : root.Reaches fs base p) (mem : i ∈ p.imports)

include reached mem

/-- The path of an import is made of names that go down from the project, the last one without an
extension. -/
theorem path_names : ∃ front last, i.parents = front ++ [last] ∧
    Place.Named (base ++ front) ∧ IsName last ∧ '.' ∉ last.toList := by
  obtain ⟨front, last, eq, front_names, last_name⟩ :=
    parents_of_import (project.parsed_of_reaches reached) mem
  have named := List.forall_mem_append.mpr ⟨project.base_named, fun n mem => (front_names n mem).1⟩
  exact ⟨front, last, eq, named, last_name⟩

/-- The file of an import is below the project, and its place can be reached by names. -/
theorem file_named : Place.Named (i.file base) := by
  obtain ⟨front, last, eq, named, is_name, _⟩ := project.path_names reached mem
  rw [Import.file, eq, List.dropLast_concat, List.getLastD_concat]
  exact Place.named_append_singleton.mpr ⟨named, is_name.withExtension⟩

theorem candidate_eq : Importing.candidate base.path i.parents = (i.file base).path := by
  obtain ⟨front, last, eq, named, is_name, plain⟩ := project.path_names reached mem
  have whole := Place.named_append_singleton.mpr ⟨named, is_name⟩
  rw [List.append_assoc] at whole
  rw [Importing.candidate, Import.file, eq, List.dropLast_concat, List.getLastD_concat,
    Place.foldl_join_path whole, ← List.append_assoc,
    Place.withExtension_path named is_name plain is_name.withExtension]

/-- A source in the file of an import is named after it, and is found there. -/
theorem source_of_import {source : Source}
    (loaded : Source.fromFile fs (i.file base).path = .ok source) :
    source.onDisk = true ∧ source.name = (i.file base).path.text ∧
      fs.canonical (i.file base).path = .ok (i.file base) :=
  source_of_fromFile project.linkless (project.file_named reached mem) (i.file_ne_nil base) loaded

end Project

/-- A program that is reached stands where its source is named after, or it is the root. -/
theorem Project.source_in (project : root.Project fs base) (reached : root.Reaches fs base p) :
    p.source.In fs base := by
  cases reached with
  | root =>
    cases project.rootIn with
    | @file name bytes onDisk located canonical =>
      have named := FileSystem.named_of_locate located
      have split : base ++ [name] = base ++ [] ++ [name] := by simp
      rw [split] at located canonical named
      refine .file onDisk named canonical ?_
      rw [FileSystem.canonical, located]
      rfl
    | memory inMemory free located canonical => exact .memory inMemory free
  | @importing p q i reached mem found =>
    have named := project.file_named reached mem
    obtain ⟨source, decls, loaded, parsed, rfl⟩ := ofFile?_eq_some.mp found
    obtain ⟨onDisk, name, located⟩ := project.source_of_import reached mem loaded
    exact .file onDisk named name.symm (name ▸ located)

/-- A program that is named after a place, and is not the root, is the program in the file there. -/
theorem Project.ofFile?_of_name (project : root.Project fs base) (reached : root.Reaches fs base p)
    (named : place.Named) (same : p.source.name = place.path.text)
    (other : place.path.text ≠ root.source.name) : ofFile? fs place = some p := by
  cases reached with
  | root => exact absurd same.symm other
  | @importing p q i reached mem found =>
    have file_named := project.file_named reached mem
    obtain ⟨source, decls, loaded, parsed, rfl⟩ := ofFile?_eq_some.mp found
    obtain ⟨_, name, _⟩ := project.source_of_import reached mem loaded
    have same : (i.file base).path.text = place.path.text := name.symm.trans same
    have same_path : (i.file base).path = place.path := congrArg Path.mk same
    rwa [← Place.path_inj file_named named (congrArg Path.components same_path)]

/-- Relative imports in a source of a project start at the project. -/
theorem relativeRoot?_eq {setting : Importing.Setting} {source : Source}
    (inside : source.In fs base) (same : setting.project = some base.path) :
    Importing.relativeRoot? setting source = some base.path := by
  cases inside with
  | @file place name onDisk named canonical located =>
    obtain ⟨front, is_name⟩ := Place.named_append_singleton.mp named
    have home : Importing.home source = (base ++ place).path := by
      rw [Importing.home, Source.directory?, ← canonical]
      show ((base ++ place ++ [name]).path.parent?).getD _ = _
      rw [Place.parent?_path front is_name]
      rfl
    rw [Importing.relativeRoot?, onDisk, home, same]
    simp [Option.filter, Place.startsWith_path front]
  | memory inMemory free =>
    rw [Importing.relativeRoot?, inMemory, same]

theorem Project.projectOf_eq (project : root.Project fs base) :
    Importing.projectOf fs root.source = some base.path := by
  cases project.rootIn with
  | @file name bytes onDisk located canonical =>
    obtain ⟨front, is_name⟩ := Place.named_append_singleton.mp (FileSystem.named_of_locate located)
    rw [Importing.projectOf, if_pos onDisk, Source.directory?, ← canonical]
    exact Place.parent?_path front is_name
  | memory inMemory free located canonical =>
    rw [Importing.projectOf, if_neg (by simp [inMemory]), canonical]

end Program

end Frontend
