/-!
Paths of a file system whose separator is the slash. A path keeps the text it was written with,
which messages show; comparisons read it as a list of components, in which repeated slashes and
inner dots count for nothing.
-/
namespace Frontend

/-- A part of a path. Only a relative path can begin with `here`. -/
inductive Component where
  | root
  | here
  | up
  | name (text : String)
deriving DecidableEq, Repr

/-- A path as it was written. -/
structure Path where
  text : String
deriving DecidableEq, Repr, Inhabited

namespace Path

/-- The pieces of a text between slashes. There is always one more piece than slashes. -/
def segmentsOf : List Char → List (List Char)
  | [] => [[]]
  | c :: rest =>
    if c = '/' then [] :: segmentsOf rest
    else match segmentsOf rest with
      | [] => [[c]]
      | s :: more => (c :: s) :: more

/-- The text whose pieces between slashes are given. -/
def ofSegments (segments : List (List Char)) : Path :=
  ⟨String.ofList (['/'].intercalate segments)⟩

/-- The pieces of a path between slashes. -/
def segments (p : Path) : List (List Char) := segmentsOf p.text.toList

/-- A path that begins at the root. -/
def isAbsolute (p : Path) : Bool := p.text.toList.head? == some '/'

/-- What a piece contributes to a path, wherever it stands. -/
def componentOf (segment : List Char) : Option Component :=
  if segment = [] ∨ segment = ['.'] then none
  else if segment = ['.', '.'] then some .up
  else some (.name (String.ofList segment))

/-- The components of a path. -/
def components (p : Path) : List Component :=
  let lead := if p.isAbsolute then [Component.root]
    else if p.segments.head? = some ['.'] then [Component.here] else []
  lead ++ p.segments.filterMap componentOf

/-- Two paths with the same components. -/
def same (p q : Path) : Bool := p.components == q.components

/-- Drops pieces that name nothing from the end of a path, given with its last piece first. The
first piece of the path stays. -/
def dropBlank : List (List Char) → List (List Char)
  | s :: t :: rest => if s = [] ∨ s = ['.'] then dropBlank (t :: rest) else s :: t :: rest
  | short => short

/-- The path without its last component; nothing for the root and for the empty path. -/
def parent? (p : Path) : Option Path :=
  match p.components.getLast? with
  | none | some .root => none
  | some _ =>
    let kept := dropBlank ((dropBlank p.segments.reverse).drop 1)
    let text := ofSegments kept.reverse
    some (if p.isAbsolute && text.text.isEmpty then ⟨"/"⟩ else text)

/-- The last component, when it is a name. -/
def fileName? (p : Path) : Option String :=
  match p.components.getLast? with
  | some (.name n) => some n
  | _ => none

/-- A name up to its last dot. A dot that begins the name is part of it. -/
def stemOf (name : List Char) : List Char :=
  match (name.reverse.dropWhile (· != '.')).drop 1 with
  | [] => name
  | before => before.reverse

/-- The file name without its extension. -/
def fileStem? (p : Path) : Option String :=
  p.fileName?.map fun n => String.ofList (stemOf n.toList)

/-- A path below another one. An absolute path is below nothing and stands for itself. -/
def join (p q : Path) : Path :=
  if q.isAbsolute then q
  else if p.text.isEmpty || p.text.toList.getLast? == some '/' then ⟨p.text ++ q.text⟩
  else ⟨p.text ++ "/" ++ q.text⟩

/-- The path with the extension of its file name replaced. A path without a file name stays. -/
def withExtension (p : Path) (extension : String) : Path :=
  match p.fileName?, dropBlank p.segments.reverse with
  | some n, _ :: before =>
    ofSegments ((stemOf n.toList ++ '.' :: extension.toList) :: before).reverse
  | _, _ => p

/-- A path made of one component. -/
def ofComponent : Component → Path
  | .root => ⟨"/"⟩
  | .here => ⟨"."⟩
  | .up => ⟨".."⟩
  | .name n => ⟨n⟩

/-- Whether a path is a directory's path or continues it. -/
def startsWith (p directory : Path) : Bool := directory.components.isPrefixOf p.components

/-- The components of a path after those of a directory that it starts with. -/
def below? (p directory : Path) : Option (List Component) :=
  if p.startsWith directory then some (p.components.drop directory.components.length) else none

/-- The path seen from the root: a relative one continues the current directory. Dots and repeated
slashes go, steps up stay, and so do a slash at the end and a beginning with exactly two slashes.
The empty path has no such form. -/
def absolute? (p current : Path) : Option Path :=
  if p.text.isEmpty then none else
  let text := p.text.toList
  let names := p.components.filter fun c => c != .root && c != .here
  let doubled := text.take 2 == ['/', '/'] && text[2]? != some '/'
  let base : Path := if !p.isAbsolute then current else if doubled then ⟨"//"⟩ else ⟨"/"⟩
  let whole := names.foldl (fun q c => q.join (ofComponent c)) base
  some (if text.getLast? == some '/' then whole.join ⟨""⟩ else whole)

end Path

end Frontend
