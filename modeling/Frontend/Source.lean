import Frontend.FileSystem
import Frontend.Position
import Frontend.Text.Utf8

/-!
The code of one compilation unit. Code is bytes: a source need not be well-formed UTF-8, and its
text is decoded only where it is shown.
-/
namespace Frontend

/-- One compilation unit. `onDisk` tells whether `name` is the path of a file. -/
structure Source where
  name : String
  code : List UInt8
  onDisk : Bool
deriving Inhabited

namespace Source

/-- A source that is no file. -/
def inMemory (name : String) (code : List UInt8) : Source := ⟨name, code, false⟩

/-- The source in a file, named by the absolute path of the file. -/
def fromFile (fs : FileSystem) (p : Path) : Except FileError Source :=
  match p.absolute? fs.current with
  | none => .error .emptyPath
  | some whole => (fs.read whole).map fun code => ⟨whole.text, code, true⟩

/-- The text between two offsets, which are brought inside the source first. -/
def slice (source : Source) (start stop : Nat) : String :=
  let stop := min stop source.code.length
  let start := min start stop
  Utf8.toStringLossy ((source.code.drop start).take (stop - start))

/-- The name of what is compiled from the source: the file name without directory and extension,
and `out` for a source that is no file. -/
def baseName (source : Source) : String :=
  if source.onDisk then (Path.fileStem? ⟨source.name⟩).getD "out" else "out"

/-- A position as messages cite it. -/
def cite (source : Source) (p : Position) : String := s!"{source.name}:{p.lineColumn}"

/-- The directory of a source's file. -/
def directory? (source : Source) : Option Path := Path.parent? ⟨source.name⟩

end Source

end Frontend
