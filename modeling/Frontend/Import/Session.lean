import Frontend.Grammar.File
import Frontend.Import.Library
import Frontend.Import.Program
import Frontend.Text.Quoted

/-!
What a resolution of imports works with: the state that lasts from one root program to the next,
the events for a log, and the errors that only imports have.
-/
namespace Frontend.Importing

/-- What a resolution tells a log. The parser of an imported file tells its events, too. -/
inductive Event where
  | libraries (paths : List Path)
  | started (name : String) (project : Option Path)
  | resolving (name : String)
  | rootFound (root : Path)
  | rootSought (directory : Path)
  | known (file : Path)
  | parsing (name : String)
  | parser (event : Grammar.Event)
  | parsed (name : String)
  | finished

/-- The project in a log, in quotes. -/
def projectText (project : Option Path) : String :=
  project.elim "None" fun p => s!"Some({Text.quoted p.text})"

/-- The text of an event in a log. -/
def Event.message : Event → String
  | .libraries paths => s!"Library paths: {Library.describe paths}"
  | .started name project => s!"Will resolve imports of {name} in project {projectText project}"
  | .resolving name => s!"Will resolve imports in {name}"
  | .rootFound root => s!"Found root directory for relative import: {root.text}"
  | .rootSought directory =>
    s!"Will find root directory for relative import in {directory.text}"
  | .known file => s!"Resolved module from cache: {file.text}"
  | .parsing name => s!"Will parse module: {name}"
  | .parser event => event.message
  | .parsed name => s!"Parsed module: {name}"
  | .finished => "Finished resolving modules successfully"

/-- Why an import leads to no module. -/
inductive Cause where
  /-- The file is the one that imports it. -/
  | itself
  /-- No file is there. -/
  | cannotOpen (file : Path) (error : FileError)
  | cannotRead (file : Path) (error : FileError)
  /-- The imports of the file are being resolved right now. -/
  | cycle (file : Path)
  /-- No library has it. -/
  | notFound (path : String) (searched : List Path)
  /-- A relative import stands in a file outside of the project and of all libraries. -/
  | outside (path : String) (directory : Path) (project : Option Path) (libraries : List Path)

/-- A project in messages. -/
def projectName (project : Option Path) : String := project.elim "" (·.text)

/-- The message of an import error. -/
def Cause.message : Cause → String
  | .itself => "Cannot import myself"
  | .cannotOpen file error => s!"Cannot open '{file.text}': {error.message}"
  | .cannotRead file error => s!"Cannot read '{file.text}': {error.message}"
  | .cycle file => s!"Import cycle detected while importing '{file.text}'"
  | .notFound path searched =>
    s!"Cannot import '{path}'. Searched directories: {Library.describe searched}"
  | .outside path directory project libraries =>
    s!"Cannot import '{path}' because directory '{directory.text}' does not belong to " ++
    s!"project path '{projectName project}' nor library paths {Library.describe libraries}"

/-- What lasts from one root program to the next: the programs whose imports are all resolved, by
the canonical places of their files, the places of files whose imports are being resolved, and the
events, latest first. -/
structure Session where
  libraries : List Path
  known : List (Place × Program)
  busy : List Place
  events : List Event

/-- A session that knows no program yet. -/
def Session.start (libraries : List Path) : Session := ⟨libraries, [], [], [.libraries libraries]⟩

/-- The messages of a session for a log, in order. -/
def Session.messages (s : Session) : List String := s.events.reverse.map (·.message)

/-- A step of a resolution. -/
abbrev Resolving (α : Type) : Type := EStateM Diagnostic Session α

/-- Tells the log. -/
def tell (e : Event) : Resolving Unit :=
  modify fun s => { s with events := e :: s.events }

/-- Telling all events of a parser changes nothing but the log. -/
theorem tellAll_bind {β : Type} (events : List Grammar.Event) (k : Unit → Resolving β)
    (s : Session) : ((events.forM fun e => tell (.parser e)) >>= k) s =
      k () { s with events := (events.map .parser).reverse ++ s.events } := by
  induction events generalizing s with
  | nil => rfl
  | cons e events ih =>
    have rest := ih { s with events := .parser e :: s.events }
    rw [List.map_cons, List.reverse_cons, List.append_assoc]
    exact rest

/-- The program at a place, if it is known. -/
def known? (place : Place) : Resolving (Option Program) := do
  let s ← get
  pure (s.known.lookup place)

/-- Makes a program known. -/
def learn (place : Place) (p : Program) : Resolving Unit :=
  modify fun s => { s with known := (place, p) :: s.known }

end Frontend.Importing
