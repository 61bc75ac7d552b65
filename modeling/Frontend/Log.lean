import Frontend.Unicode.Whitespace

/-!
Which components of the compiler may log. A logger carries the set that the user asked for and the
component that is logging; a message gets through when the two meet.
-/
namespace Frontend.Log

/-- A set of components, as a word with one bit per component. The word has room for components
that have no name yet, so the full set is more than the union of the named ones. -/
structure Tags where
  bits : UInt32
deriving DecidableEq, Repr

namespace Tags

def none : Tags := ⟨0⟩

/-- Lexer, parser and import resolution. -/
def parsing : Tags := ⟨1⟩

/-- Semantic checks. -/
def sema : Tags := ⟨2⟩

def all : Tags := ⟨0xffffffff⟩

def union (a b : Tags) : Tags := ⟨a.bits ||| b.bits⟩

/-- Two sets with a component in common. -/
def meets (a b : Tags) : Bool := a.bits &&& b.bits != 0

/-- The name of a set that has one. -/
def name (t : Tags) : String :=
  if t = parsing then "Parsing" else if t = sema then "Sema" else if t = all then "All" else "None"

/-- The set of one component given by name. -/
def ofComponent? (component : String) : Option Tags :=
  if component = "All" then some all
  else if component = "Parsing" then some parsing
  else if component = "Sema" then some sema
  else Option.none

/-- The pieces of a text between commas. -/
def pieces : List Char → List (List Char)
  | [] => [[]]
  | c :: rest =>
    if c = ',' then [] :: pieces rest
    else match pieces rest with
      | [] => [[c]]
      | p :: more => (c :: p) :: more

/-- The set named by a comma-separated list, or the first name that is no component. White space
around names and empty names count for nothing. -/
def ofList (text : String) : Except String Tags :=
  let names := ((pieces text.toList).map Unicode.trim).filter (· ≠ [])
  names.foldlM (fun tags n =>
    let component := String.ofList n
    match ofComponent? component with
    | some t => .ok (tags.union t)
    | Option.none => .error component) none

/-- What is said about a name that is no component. -/
def unknownMessage (component : String) : String :=
  s!"Unknown log component '{component}'. Valid component: 'Parsing', 'Sema' or 'All'"

end Tags

/-- A logger: the set asked for, and the set on whose behalf it logs. -/
structure Logger where
  enabled : Tags
  tag : Tags
deriving DecidableEq, Repr

namespace Logger

/-- A logger for no component yet. -/
def new (enabled : Tags) : Logger := ⟨enabled, .none⟩

/-- The same set asked for, logging for a component. -/
def forTag (l : Logger) (tag : Tags) : Logger := { l with tag }

/-- Whether messages get through. -/
def isEnabled (l : Logger) : Bool := l.enabled.meets l.tag

/-- The lines of messages that get through, each marked with the component. -/
def lines (l : Logger) (messages : List String) : List String :=
  if l.isEnabled then messages.map fun m => s!"[{l.tag.name}] {m}" else []

end Logger

end Frontend.Log
