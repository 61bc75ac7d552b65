import Frontend.Command.Arguments
import Frontend.Diagnostic.Report
import Frontend.Import.Resolve

/-!
A run of the compiler's front end: a source is read, taken through the stages that the mode asks
for, and what comes of it is written to the standard output or said on the standard error.
-/
namespace Frontend.Command

/-- What a run finds around it. -/
structure World where
  fs : FileSystem
  /-- The path of the running program. -/
  program : Path
  /-- The directories of libraries that the environment lists. -/
  libraries : Option String
  /-- What the standard input holds. -/
  input : List UInt8

/-- Why a run fails. -/
inductive Failure where
  | usage (error : UsageError)
  | unreadable (error : FileError)
  | rejected (error : Diagnostic)

/-- What comes of a run: the standard output, the messages that were logged, and the failure if it
is one. -/
structure Outcome where
  output : String
  log : List String
  failure : Option Failure

/-- The exit status of a run. -/
def Outcome.status (o : Outcome) : Nat :=
  match o.failure with
  | none => 0
  | some (.usage e) => e.status
  | some _ => 4

/-- What is said about a source that cannot be read. -/
def readMessage (e : FileError) : String := s!"Error reading source: {e.message}"

/-- What is said about a failure on the standard error. Help is no failure there. -/
def Failure.complaint : Failure → List String
  | .usage .help => []
  | .usage e => [s!"error: {e.name}"]
  | .unreadable e => [readMessage e]
  | .rejected d =>
    let r := d.report
    [r.title, s!" at {r.location}"] ++ r.notes.map fun n => s!"  Note{n}"

/-- The lines on the standard error. -/
def Outcome.complaints (o : Outcome) : List String :=
  o.log ++ o.failure.elim [] Failure.complaint

/-- A new session with the libraries that a world has. -/
def World.session (w : World) : Importing.Session :=
  .start (Library.paths w.program w.libraries w.fs.current)

/-- A program with its imports resolved in a session of its own, or an error; and the messages of
the parser and of the session, in order. -/
def World.resolve (w : World) (source : Source) : Except Diagnostic Program × List String :=
  let parsed := parse source
  let parsing := parsed.events.map (·.message)
  match parsed.result with
  | .error d => (.error d, parsing)
  | .ok decls =>
    match Importing.resolveAll w.fs (.ofDecls source decls) w.session with
    | .ok p session => (.ok p, parsing ++ session.messages)
    | .error d session => (.error d, parsing ++ session.messages)

/-- What a mode writes about a source, and the messages that are logged on the way. -/
def written (w : World) (mode : Mode) (source : Source) : Except Diagnostic String × List String :=
  let lexing := (scan source).events.map (·.message)
  match mode with
  | .tokens => ((tokenize source).map Token.listing, lexing)
  | .tree =>
    let (result, messages) := w.resolve source
    (result.map (·.listing), lexing ++ messages)
  | .check =>
    let (result, messages) := w.resolve source
    (result.map fun _ => "", lexing ++ messages)

/-- The name of the source on the standard input. -/
def stdinName : String := "<stdin>"

/-- The source that a command line names: a file, or the standard input. -/
def sourceOf (w : World) (file : Option String) : Except FileError Source :=
  match file with
  | some name => Source.fromFile w.fs ⟨name⟩
  | none => .ok (.inMemory stdinName w.input)

/-- A run. -/
def run (w : World) (args : List String) : Outcome :=
  match Arguments.read args with
  | .error .help => ⟨Arguments.helpText, [], some (.usage .help)⟩
  | .error e => ⟨"", [], some (.usage e)⟩
  | .ok a =>
    match sourceOf w a.file with
    | .error e => ⟨"", [], some (.unreadable e)⟩
    | .ok source =>
      let (result, messages) := written w a.mode source
      let log := ((Log.Logger.new a.tags).forTag .parsing).lines messages
      match result with
      | .ok output => ⟨output, log, none⟩
      | .error d => ⟨"", log, some (.rejected d)⟩

end Frontend.Command
