import Frontend.Command.Run

/-!
The command line program. It takes a picture of the files that a run may look at, lets the run go
on that picture, and writes what comes of it.
-/
namespace Frontend.Command

/-- The paths on the way to a path, and the path itself at the end. -/
def waypoints (p : Path) : List Path :=
  (p.components.foldl (fun before component =>
    (before.head?.getD ⟨""⟩).join (.ofComponent component) :: before) []).reverse

/-- The file system with what stands at a path on the disk. It has all that is on the way there. -/
def captureEntry (fs : FileSystem) (p : Path) : IO FileSystem := do
  try
    let real : Path := ⟨(← IO.FS.realPath p.text).toString⟩
    let fs ←
      if ← (System.mkFilePath [p.text]).isDir then pure (fs.makeDirectory real).1
      else pure (fs.writeFile real (← IO.FS.readBinFile p.text).toList)
    if (fs.canonical p).toOption = (fs.canonical real).toOption then pure fs
    else pure (fs.makeLink p real)
  catch _ => pure fs

/-- The file system with what stands at a path on the disk and on the way there. -/
def capture (fs : FileSystem) (p : Path) : IO FileSystem :=
  match p.absolute? fs.current with
  | some whole => (waypoints whole).foldlM captureEntry fs
  | none => pure fs

/-- The files that a source may import. -/
def importable (setting : Importing.Setting) (source : Source) : List Path :=
  match (parse source).result with
  | .ok decls => (Toplevel.imports decls).flatMap (Importing.candidates setting source)
  | .error _ => []

/-- The file system with all files that imports lead to, directly or not. -/
partial def captureAll (libraries : List Path) (project : Option Path) (fs : FileSystem)
    (seen : List Path) : List Path → IO FileSystem
  | [] => pure fs
  | p :: rest => do
    if p ∈ seen then captureAll libraries project fs seen rest
    else
      let fs ← capture fs p
      let more := match Source.fromFile fs p with
        | .ok source => importable ⟨fs, libraries, project⟩ source
        | .error _ => []
      captureAll libraries project fs (p :: seen) (more ++ rest)

/-- What a run with some arguments finds around it. -/
def World.ofDisk (args : List String) : IO World := do
  let program : Path := ⟨(← IO.appPath).toString⟩
  let current : Path := ⟨(← IO.currentDir).toString⟩
  let libraries ← IO.getEnv Library.environmentVariable
  let paths := Library.paths program libraries current
  let fs : FileSystem := ⟨[], current⟩
  let fs := (fs.makeDirectory current).1
  match Arguments.read args with
  | .error _ => pure ⟨fs, program, libraries, []⟩
  | .ok a =>
    match a.file with
    | some name =>
      let main : Path := ⟨name⟩
      let fs ← capture fs main
      let project := (Source.fromFile fs main).toOption.bind Source.directory?
      let fs ← captureAll paths project fs [] [main]
      pure ⟨fs, program, libraries, []⟩
    | none =>
      let input := (← (← IO.getStdin).readBinToEnd).toList
      let source := Source.inMemory stdinName input
      let found := importable ⟨fs, paths, some current⟩ source
      let fs ← captureAll paths (some current) fs [] found
      pure ⟨fs, program, libraries, input⟩

end Frontend.Command

open Frontend.Command in
/-- Runs the front end on the arguments of the command line. -/
def main (args : List String) : IO UInt32 := do
  let o := run (← World.ofDisk args) args
  try
    (← IO.getStdout).putStr o.output
    (← IO.getStdout).flush
  catch e =>
    IO.eprintln s!"Error writing output: {e}"
    return 4
  for line in o.complaints do
    IO.eprintln line
  return o.status.toUInt32
