import Frontend.Path

/-!
A finite file system with directories, files and symbolic links. `seek` follows a path to the place
it leads to; a place is the list of names on the way from the root and is the same for every path
that leads there. Reading, writing and finding a canonical path are all stated by it, so they agree
on what a path means.
-/
namespace Frontend

/-- Why a path leads to nothing that can be read. -/
inductive FileError where
  | notFound
  | notDirectory
  | isDirectory
  | nameTooLong
  | tooManyLinks
  | emptyPath
  | nulInPath
deriving DecidableEq, Repr

/-- The text of a file error. -/
def FileError.message : FileError → String
  | .notFound => "No such file or directory (os error 2)"
  | .notDirectory => "Not a directory (os error 20)"
  | .isDirectory => "Is a directory (os error 21)"
  | .nameTooLong => "File name too long (os error 36)"
  | .tooManyLinks => "Too many levels of symbolic links (os error 40)"
  | .emptyPath => "cannot make an empty path absolute"
  | .nulInPath => "file name contained an unexpected NUL byte"

/-- What stands at a place. -/
inductive Entry where
  | directory
  | file (bytes : List UInt8)
  | link (target : Path)

/-- The names on the way from the root. -/
abbrev Place := List String

/-- The canonical path of a place. -/
def Place.path (place : Place) : Path :=
  ⟨"/" ++ "/".intercalate place⟩

/-- The entries of a file system by their places, and the current directory. The root directory
needs no entry. -/
structure FileSystem where
  entries : List (Place × Entry)
  current : Path

namespace FileSystem

/-- What stands at a place, if anything does. -/
def entryAt? (fs : FileSystem) (place : Place) : Option Entry :=
  if place = [] then some .directory else fs.entries.lookup place

/-- The places where something stands. -/
def places (fs : FileSystem) : List Place := [] :: fs.entries.map (·.1)

theorem mem_places {fs : FileSystem} {place : Place} {entry : Entry}
    (h : fs.entryAt? place = some entry) : place ∈ fs.places := by
  unfold entryAt? at h
  split at h
  · simp [places, *]
  · obtain ⟨before, after, eq, _⟩ := List.lookup_eq_some_iff.mp h
    simp [places, eq]

/-- How many links one look-up may follow. -/
def linkLimit : Nat := 40

/-- The longest name of an entry, in bytes. -/
def nameLimit : Nat := 255

/-- The longest path that can be opened, in bytes. -/
def pathLimit : Nat := 4095

/-- Follows the pieces of a path from a place that exists to what stands at the end, if anything
does. Every piece but the last must lead through a directory, and also a slash or a dot at the end
asks for one. A link counts against `links` and continues with its target. -/
def seek (fs : FileSystem) (links : Nat) (here : Place) :
    List (List Char) → Except FileError (Place × Option Entry)
  | [] => .ok (here, fs.entryAt? here)
  | segment :: rest =>
    match fs.entryAt? here with
    | none => .error .notFound
    | some (.file _) => .error .notDirectory
    | some (.link _) => .error .notDirectory
    | some .directory =>
      match Path.componentOf segment with
      | some (.name n) =>
        if n.utf8ByteSize > nameLimit then .error .nameTooLong
        else match fs.entryAt? (here ++ [n]) with
          | none => if rest.isEmpty then .ok (here ++ [n], none) else .error .notFound
          | some (.link target) =>
            match links with
            | 0 => .error .tooManyLinks
            | links + 1 =>
              if target.text.isEmpty then .error .notFound
              else seek fs links (if target.isAbsolute then [] else here) (target.segments ++ rest)
          | some _ => seek fs links (here ++ [n]) rest
      | some .up => seek fs links here.dropLast rest
      | _ => seek fs links here rest
termination_by segments => (links, segments.length)

/-- A path seen from the root. -/
def fromRoot (fs : FileSystem) (p : Path) : Path :=
  if p.isAbsolute then p else fs.current.join p

/-- The place that a path leads to, and what stands there, if anything does. The directory of that
place is there. -/
def destination (fs : FileSystem) (p : Path) : Except FileError (Place × Option Entry) :=
  if p.text.contains '\x00' then .error .nulInPath
  else if p.text.isEmpty then .error .notFound
  else fs.seek linkLimit [] (fs.fromRoot p).segments

/-- The place that a path leads to and what stands there. -/
def locate (fs : FileSystem) (p : Path) : Except FileError (Place × Entry) := do
  match ← fs.destination p with
  | (place, some entry) => .ok (place, entry)
  | (_, none) => .error .notFound

/-- The place of a path, every link followed. -/
def canonical (fs : FileSystem) (p : Path) : Except FileError Place :=
  (fs.locate p).map (·.1)

theorem entryAt?_of_seek {fs : FileSystem} {links : Nat} {here place : Place} {found : Option Entry}
    {segments : List (List Char)} (h : fs.seek links here segments = .ok (place, found)) :
    fs.entryAt? place = found := by
  fun_induction seek fs links here segments with
  | case1 _ here =>
    simp only [Except.ok.injEq, Prod.mk.injEq] at h
    rw [← h.1, ← h.2]
  | _ => simp_all

theorem entryAt?_of_locate {fs : FileSystem} {p : Path} {place : Place} {entry : Entry}
    (h : fs.locate p = .ok (place, entry)) : fs.entryAt? place = some entry := by
  unfold locate destination at h
  split at h
  · cases h
  · split at h
    · cases h
    · generalize found : fs.seek _ _ _ = result at h
      match result with
      | .ok (_, some _) =>
        cases h
        exact entryAt?_of_seek found
      | .ok (_, none) => cases h
      | .error _ => cases h

/-- A canonical place is one where something stands. -/
theorem mem_places_of_canonical {fs : FileSystem} {p : Path} {place : Place}
    (h : fs.canonical p = .ok place) : place ∈ fs.places := by
  unfold canonical at h
  match found : fs.locate p with
  | .ok (_, _) =>
    rw [found] at h
    cases h
    exact mem_places (entryAt?_of_locate found)
  | .error _ =>
    rw [found] at h
    cases h

/-- The bytes of a file. -/
def read (fs : FileSystem) (p : Path) : Except FileError (List UInt8) :=
  if p.text.utf8ByteSize > pathLimit then .error .nameTooLong
  else match fs.locate p with
    | .ok (_, .file bytes) => .ok bytes
    | .ok _ => .error .isDirectory
    | .error e => .error e

/-- The file system with an entry put at a place, in place of what stood there. -/
def put (fs : FileSystem) (place : Place) (entry : Entry) : FileSystem :=
  { fs with entries := (place, entry) :: fs.entries.filter (·.1 != place) }

/-- The place that a name in a directory leads to, with a directory made there if nothing is. -/
def enter (fs : FileSystem) (here : Place) (name : String) : FileSystem × Place :=
  match fs.seek linkLimit here [name.toList] with
  | .ok (place, some _) => (fs, place)
  | _ => (fs.put (here ++ [name]) .directory, here ++ [name])

/-- The file system with a directory at a path and at every place on the way to it, and the place
of that directory with links followed. -/
def makeDirectory (fs : FileSystem) (p : Path) : FileSystem × Place :=
  (fs.fromRoot p).components.foldl (fun (fs, here) component =>
    match component with
    | .name n => enter fs here n
    | .up => (fs, here.dropLast)
    | _ => (fs, here)) (fs, [])

/-- The file system with a directory around a path, and the place that the last name of the path
has in it. No link is followed there. -/
def makeRoom (fs : FileSystem) (p : Path) : FileSystem × Option Place :=
  let whole := fs.fromRoot p
  let (fs, directory) := fs.makeDirectory (whole.parent?.getD whole)
  (fs, whole.fileName?.map fun n => directory ++ [n])

/-- The file system with a link at a path, unless something stands there. -/
def makeLink (fs : FileSystem) (p target : Path) : FileSystem :=
  match fs.makeRoom p with
  | (fs, some place) => if (fs.entryAt? place).isNone then fs.put place (.link target) else fs
  | (fs, none) => fs

/-- The file system with a file written at a path, in directories that are made if need be. Links
are followed, and one that leads to nothing says where the file goes. -/
def writeFile (fs : FileSystem) (p : Path) (bytes : List UInt8) : FileSystem :=
  let (fs, _) := fs.makeRoom p
  match fs.destination p with
  | .ok (place, none) | .ok (place, some (.file _)) => fs.put place (.file bytes)
  | _ => fs

/-- The file system without the file or the link at a path. A link is not followed there. -/
def removeFile (fs : FileSystem) (p : Path) : FileSystem :=
  let whole := fs.fromRoot p
  match whole.fileName?, fs.locate (whole.parent?.getD whole) with
  | some n, .ok (directory, .directory) =>
    match fs.entryAt? (directory ++ [n]) with
    | some (.file _) | some (.link _) =>
      { fs with entries := fs.entries.filter (·.1 != directory ++ [n]) }
    | _ => fs
  | _, _ => fs

end FileSystem

end Frontend
