import Frontend.Attempt
import Frontend.Import.Session

/-!
Resolution of imports. `import a.b.c` refers to the file `a/b` with the extension of sources: below
the root of the importer's own project or library if the import is relative, and otherwise below
the first library that has it. A file becomes known once its own imports are resolved, and a known
file is not read again.

Files whose imports are being resolved are `busy`. An import that leads to one of them is part of
a cycle; every other file makes one more place busy, and since a file system has finitely many
places, a resolution comes to an end. What is busy stands in the session; for the sake of that
argument it is a parameter, too.
-/
namespace Frontend.Importing

/-- What a resolution depends on and never changes. The project is the directory of the root
program. -/
structure Setting where
  fs : FileSystem
  libraries : List Path
  project : Option Path

/-- The file that an import refers to below a directory. -/
def candidate (directory : Path) (parents : List String) : Path :=
  (parents.foldl (fun p name => p.join ⟨name⟩) directory).withExtension Library.extension

/-- A place that files may still be loaded from. -/
def Fresh (fs : FileSystem) (busy : List Place) (place : Place) : Prop :=
  place ∈ fs.places ∧ place ∉ busy

/-- How many places are not busy. -/
def freePlaces (fs : FileSystem) (busy : List Place) : Nat :=
  (fs.places.filter (· ∉ busy)).length

theorem freePlaces_lt {fs : FileSystem} {busy : List Place} {place : Place}
    (h : Fresh fs busy place) : freePlaces fs (place :: busy) < freePlaces fs busy := by
  unfold freePlaces
  have sub : fs.places.filter (· ∉ place :: busy) =
      (fs.places.filter (· ∉ busy)).filter (· ≠ place) := by
    rw [List.filter_filter]
    congr 1
    funext p
    simp
  rw [sub]
  refine Nat.lt_of_le_of_ne (List.length_filter_le _ _) fun same => ?_
  have all := List.length_filter_eq_length_iff.mp same
  have := all place (List.mem_filter.mpr ⟨h.1, by simpa using h.2⟩)
  simp at this

/-- A way to load the program at a place that is not busy. -/
abbrev Loader (fs : FileSystem) (busy : List Place) : Type :=
  (importer : Source) → (i : Import) → (file : Path) → (place : Place) →
    Fresh fs busy place → Resolving Program

/-- A way to load programs in any setting, whatever is busy. -/
abbrev Loading : Type := (setting : Setting) → (busy : List Place) → Loader setting.fs busy

/-- Fails because of an import. -/
def fail {α : Type} (importer : Source) (i : Import) (cause : Cause) : Resolving α :=
  throw (.across importer i.span cause.message)

/-- A computation whose error gets one more note, about an import. -/
def noting {α : Type} (importer : Source) (i : Import) (note : String) (x : Resolving α) :
    Resolving α := do
  match ← attempt x with
  | .ok a => pure a
  | .error d => throw (d.noteAt importer i.span.start note)

/-- A computation during which some places are busy. They are no longer when it is done, also if it
fails. -/
def occupying {α : Type} (places : List Place) (x : Resolving α) : Resolving α := do
  modify fun s => { s with busy := places ++ s.busy }
  let found ← attempt x
  modify fun s => { s with busy := s.busy.filter (· ∉ places) }
  match found with
  | .ok a => pure a
  | .error d => throw d

theorem runs_occupying {α : Type} {places : List Place} {x : Resolving α} {s : Session}
    {done : α → Session → Prop} {failed : Session → Prop}
    (h : Runs x { s with busy := places ++ s.busy }
      (fun a s' => done a { s' with busy := s'.busy.filter (· ∉ places) })
      (fun s' => failed { s' with busy := s'.busy.filter (· ∉ places) })) :
    Runs (occupying places x) s done failed := by
  apply Runs.modify_bind
  apply h.attempt.bind
  intro found s' ends
  apply Runs.modify_bind
  cases found with
  | ok a => exact ends
  | error d => exact ends

/-- The module of an import of the program at a place. -/
def moduleOf (i : Import) (place : Place) (p : Program) : Module :=
  if i.importsAll then ⟨i.parents.getLast?, [], true, place, p⟩
  else ⟨none, i.imported, false, place, p⟩

/-- The program at a place: known, or loaded unless that would close a cycle. -/
def programAt {fs : FileSystem} {busy : List Place} (load : Loader fs busy) (importer : Source)
    (i : Import) (file : Path) (place : Place) (h : place ∈ fs.places) : Resolving Program := do
  match ← known? place with
  | some p =>
    tell (.known file)
    pure p
  | none =>
    if free : place ∉ busy then
      noting importer i s!"While importing '{file.text}'"
        (occupying [place] (load importer i file place ⟨h, free⟩))
    else fail importer i (.cycle file)

/-- Resolves an import below a directory. -/
def inDirectory {busy : List Place} (setting : Setting) (load : Loader setting.fs busy)
    (importer : Source) (i : Import) (directory : Path) : Resolving Module :=
  let file := candidate directory i.parents
  if file.same ⟨importer.name⟩ then fail importer i .itself
  else
    match h : setting.fs.canonical file with
    | .error e => fail importer i (.cannotOpen file e)
    | .ok place =>
      let own := setting.fs.canonical ⟨importer.name⟩
      if importer.onDisk && own.toOption == some place then fail importer i .itself
      else do
        let p ← programAt load importer i file place (FileSystem.mem_places_of_canonical h)
        pure (moduleOf i place p)

/-- The root of the library that a directory belongs to, if it belongs to one. A directory below
`lib/name` belongs to the library rooted there. -/
def libraryRoot? (libraries : List Path) (directory : Path) : Option Path :=
  libraries.findSome? fun library =>
    (directory.below? library).map fun rest =>
      rest.head?.elim library fun first => library.join (.ofComponent first)

/-- The directory that a source is in. -/
def home (source : Source) : Path := source.directory?.getD ⟨""⟩

/-- The directory that the relative imports of a source start at. A source that is no file is part
of the project. -/
def relativeRoot? (setting : Setting) (importer : Source) : Option Path :=
  match importer.onDisk, setting.project with
  | false, some project => some project
  | _, _ =>
    (setting.project.filter (home importer).startsWith).or
      (libraryRoot? setting.libraries (home importer))

/-- The directory that a relative import starts at, which has to be there. -/
def relativeRoot (setting : Setting) (importer : Source) (i : Import) : Resolving Path := do
  if importer.onDisk || setting.project.isNone then tell (.rootSought (home importer))
  match relativeRoot? setting importer with
  | some root => pure root
  | none => fail importer i (.outside i.path (home importer) setting.project setting.libraries)

/-- The files that an import of a source may refer to. -/
def candidates (setting : Setting) (importer : Source) (i : Import) : List Path :=
  let directories :=
    if i.relative then (relativeRoot? setting importer).toList else setting.libraries
  directories.map fun directory => candidate directory i.parents

/-- The module of an import in the first of some directories that has it, or what went wrong in
each. -/
def search {busy : List Place} (setting : Setting) (load : Loader setting.fs busy)
    (importer : Source) (i : Import) : List Path → Resolving (Except (List Diagnostic) Module)
  | [] => pure (.error [])
  | directory :: rest => do
    match ← attempt (inDirectory setting load importer i directory) with
    | .ok m => pure (.ok m)
    | .error d =>
      match ← search setting load importer i rest with
      | .ok m => pure (.ok m)
      | .error more => pure (.error (d :: more))

/-- An error as a note on another one: all its messages in one line. -/
def noteOn (d failure : Diagnostic) : Diagnostic :=
  d.noteAt failure.source failure.start (": ".intercalate (failure.message :: failure.notes))

/-- Resolves one import. -/
def resolveImport {busy : List Place} (setting : Setting) (load : Loader setting.fs busy)
    (importer : Source) (i : Import) : Resolving Module := do
  if i.relative then
    let root ← relativeRoot setting importer i
    tell (.rootFound root)
    noting importer i s!"Cannot import '{i.path}' in project '{projectName setting.project}'"
      (inDirectory setting load importer i root)
  else
    match ← search setting load importer i setting.libraries with
    | .ok m => pure m
    | .error failures =>
      let cause := Cause.notFound i.path setting.libraries
      throw (failures.foldl noteOn (.across importer i.span cause.message))

/-- What comes of the imports of a program: modules for those before the first that fails, and the
error of that one. -/
structure Resolution where
  modules : List Module
  error : Option Diagnostic

/-- Resolves imports in order, up to the first that fails. -/
def resolveEach {busy : List Place} (setting : Setting) (load : Loader setting.fs busy)
    (importer : Source) : List Import → Resolving Resolution
  | [] => pure ⟨[], none⟩
  | i :: rest => do
    match ← attempt (resolveImport setting load importer i) with
    | .error d => pure ⟨[], some d⟩
    | .ok m =>
      let r ← resolveEach setting load importer rest
      pure { r with modules := m :: r.modules }

/-- Resolves the imports of a program behind the modules that it has. -/
def resolveProgram {busy : List Place} (setting : Setting) (load : Loader setting.fs busy)
    (p : Program) : Resolving (Program × Option Diagnostic) := do
  tell (.resolving p.source.name)
  let r ← resolveEach setting load p.source p.imports
  pure ({ p with modules := p.modules ++ r.modules }, r.error)

/-- Parses a source. The events of the parser are told, also if it fails. -/
def parseSource (source : Source) : Resolving Program := do
  let parsed := parse source
  parsed.events.forM fun e => tell (.parser e)
  match parsed.result with
  | .error d => throw d
  | .ok decls => pure (.ofDecls source decls)

/-- Reads and parses a file. -/
def parseFile (setting : Setting) (importer : Source) (i : Import) (file : Path) :
    Resolving Program := do
  match Source.fromFile setting.fs file with
  | .error e => fail importer i (.cannotRead file e)
  | .ok source =>
    tell (.parsing source.name)
    let p ← parseSource source
    tell (.parsed source.name)
    pure p

/-- Loads the program at a place: parses its file, resolves its imports, and makes it known. -/
def loadFile {busy : List Place} (setting : Setting) (deeper : Loader setting.fs busy)
    (importer : Source) (i : Import) (file : Path) (place : Place) : Resolving Program := do
  let p ← parseFile setting importer i file
  let (p, error) ← resolveProgram setting deeper p
  match error with
  | some d => throw d
  | none =>
    learn place p
    pure p

/-- Loads programs while some places are busy. The place of a program is one more while its own
imports are resolved. -/
def load (setting : Setting) (busy : List Place) : Loader setting.fs busy :=
  fun importer i file place _ =>
    loadFile setting (load setting (place :: busy)) importer i file place
termination_by freePlaces setting.fs busy
decreasing_by exact freePlaces_lt ‹_›

/-- The directory whose files belong to the project of a root program. -/
def projectOf (fs : FileSystem) (root : Source) : Option Path :=
  if root.onDisk then root.directory? else some fs.current

/-- The places that are busy while the imports of a root program are resolved. -/
def rootPlaces (fs : FileSystem) (root : Source) : List Place :=
  if root.onDisk then (fs.canonical ⟨root.name⟩).toOption.toList else []

/-- Resolves all imports of a root program, with programs that are loaded in some way. The session
goes on with the programs that became known, also after an error. -/
def resolveWith (loading : Loading) (fs : FileSystem) (p : Program) :
    Resolving (Program × Option Diagnostic) := do
  let s ← get
  let setting : Setting := ⟨fs, s.libraries, projectOf fs p.source⟩
  tell (.started p.source.name setting.project)
  let busy := rootPlaces fs p.source
  let (p, error) ← occupying busy (resolveProgram setting (loading setting busy) p)
  if error.isNone then tell .finished
  pure (p, error)

/-- Resolves all imports of a root program and of the programs it imports. -/
def resolveRoot (fs : FileSystem) (p : Program) : Resolving (Program × Option Diagnostic) :=
  resolveWith load fs p

/-- A root program with all its imports resolved. -/
def resolveAll (fs : FileSystem) (p : Program) : Resolving Program := do
  let (p, error) ← resolveRoot fs p
  match error with
  | some d => throw d
  | none => pure p

end Frontend.Importing
