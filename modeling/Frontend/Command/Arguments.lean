import Frontend.Log

/-!
The command line: options, at most one source file, and what is wrong with a command line that is
none. A value that stands apart from its option, and a file name, are looked at only once the next
option begins or the line ends; an unknown argument after them is reported instead of them.
-/
namespace Frontend.Command

/-- What is done with a source. -/
inductive Mode where
  | tokens
  | tree
  | check
deriving DecidableEq, Repr

/-- Why a command line is not carried out. Asking for help is no error but ends it, too. -/
inductive UsageError where
  | conflict
  | unknown
  | invalidValue
  | validation
  | tooManyValues
  | help
deriving DecidableEq, Repr

namespace UsageError

/-- The name of a kind of usage error. -/
def name : UsageError → String
  | conflict => "ArgumentConflict"
  | unknown => "UnknownArgument"
  | invalidValue => "InvalidValue"
  | validation => "ValueValidation"
  | tooManyValues => "TooManyValues"
  | help => "DisplayHelp"

/-- The exit status that goes with it. -/
def status : UsageError → Nat
  | help => 0
  | _ => 2

end UsageError

/-- The arguments of a command line. -/
structure Arguments where
  tokens : Bool
  tree : Bool
  log : Option Log.Tags
  file : Option String
deriving DecidableEq, Repr

namespace Arguments

/-- No arguments. -/
def none : Arguments := ⟨false, false, .none, .none⟩

/-- What is done with the source. -/
def mode (a : Arguments) : Mode := if a.tokens then .tokens else if a.tree then .tree else .check

/-- The components that log. -/
def tags (a : Arguments) : Log.Tags := a.log.getD .none

/-- An argument that is not looked at yet: the value of `--log`, which may not have come, or a
file. -/
inductive Pending where
  | log (value : Option String)
  | file (name : String)
deriving DecidableEq, Repr

/-- A command line read up to some argument. After `--` there are no more options. -/
structure State where
  arguments : Arguments
  pending : Option Pending
  afterOptions : Bool
  fileGiven : Bool

/-- The arguments with the value of `--log`. -/
def withLog (a : Arguments) (value : String) : Except UsageError Arguments :=
  if a.log.isSome then .error .conflict
  else match Log.Tags.ofList value with
    | .ok tags => .ok { a with log := some tags }
    | .error _ => .error .validation

/-- Looks at what is pending. -/
def settle (s : State) : Except UsageError State :=
  match s.pending with
  | .none => .ok s
  | some (.log .none) => .error .invalidValue
  | some (.log (some value)) =>
    (s.arguments.withLog value).map fun a => { s with arguments := a, pending := .none }
  | some (.file name) =>
    if name.isEmpty then .error .invalidValue
    else .ok { s with arguments := { s.arguments with file := some name }, pending := .none }

/-- Name and value of a long option, the value being what stands behind the first `=`. -/
def splitOption (text : List Char) : String × Option String :=
  let name := text.takeWhile (· != '=')
  (String.ofList name, (text.drop name.length).tail?.map String.ofList)

/-- An option without a value, which may be given once. -/
def flag (s : State) (value : Option String) (given : Bool) (set : Arguments → Arguments) :
    Except UsageError State := do
  if value.isSome then .error .tooManyValues
  else
    let s ← settle s
    if given then .error .conflict else .ok { s with arguments := set s.arguments }

/-- A long option, without its two dashes. -/
def longOption (s : State) (text : List Char) : Except UsageError State :=
  match splitOption text with
  | ("tokens", value) => flag s value s.arguments.tokens fun a => { a with tokens := true }
  | ("ast", value) => flag s value s.arguments.tree fun a => { a with tree := true }
  | ("help", .none) => settle s >>= fun _ => .error .help
  | ("help", some _) => .error .tooManyValues
  | ("log", .none) => (settle s).map fun s => { s with pending := some (.log .none) }
  | ("log", some value) => do
    let s ← settle s
    let a ← s.arguments.withLog value
    .ok { s with arguments := a }
  | _ => .error .unknown

/-- A file name. There is room for one. -/
def position (s : State) (name : String) : Except UsageError State :=
  if s.fileGiven then .error .unknown
  else (settle s).map fun s => { s with pending := some (.file name), fileGiven := true }

/-- One more argument. A dash alone is a file name. -/
def step (s : State) (arg : String) : Except UsageError State :=
  if s.afterOptions then position s arg
  else match arg.toList, s.pending with
    | ['-', '-'], _ => .ok { s with afterOptions := true }
    | '-' :: '-' :: name, _ => longOption s name
    | '-' :: 'h' :: _, _ => settle s >>= fun _ => .error .help
    | '-' :: _ :: _, _ => .error .unknown
    | _, some (.log .none) => .ok { s with pending := some (.log (some arg)) }
    | _, _ => position s arg

/-- Reads a command line. -/
def read (args : List String) : Except UsageError Arguments := do
  let s ← args.foldlM step ⟨none, .none, false, false⟩
  let s ← settle s
  if s.arguments.tokens && s.arguments.tree then .error .conflict else .ok s.arguments

/-- What is said on asking for help. -/
def helpText : String :=
  String.join <| List.map (· ++ "\n")
    ["Dachs programming language compiler",
     "",
     "Usage: dachs [OPTIONS] [FILE]",
     "",
     "Arguments:",
     "  [FILE]  Source file. Reads stdin when omitted",
     "",
     "Options:",
     "      --tokens            Print the tokens of the source",
     "      --ast               Print the AST of the source and of every imported module",
     "      --log <COMPONENTS>  Comma-separated components to log: Parsing, Sema or All",
     "  -h, --help              Print help"]

end Arguments

end Frontend.Command
