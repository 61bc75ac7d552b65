import Frontend.Diagnostic.Basic
import Frontend.Literal
import Frontend.Text.Ordinal

/-!
Syntax errors. A fault is a cause at a place; a block that cannot be a value collects, on the way
out, which branch of which construct it is.
-/
namespace Frontend.Grammar

/-- Literals and types that are written with fields in braces. -/
inductive FieldSyntax where
  | literal
  | type
deriving DecidableEq, Repr

/-- Binding forms that are written with fields in braces. -/
inductive FieldBinder where
  | pattern
  | destructuring
deriving DecidableEq, Repr

/-- The word for a binding form in messages. -/
def FieldBinder.name : FieldBinder → String
  | .pattern => "pattern"
  | .destructuring => "destructuring"

/-- A branch of a construct that is used as a value. Branches of `switch` and `match` are counted
from one. -/
inductive Branch where
  | thenOfIf
  | elseOfIf
  | caseOfSwitch (n : Nat)
  | elseOfSwitch
  | withOfMatch (n : Nat)
  | elseOfMatch
deriving DecidableEq, Repr

/-- The note on a branch that has no value. -/
def Branch.message : Branch → String
  | .thenOfIf => "'then' block of 'if' expression is incorrect"
  | .elseOfIf => "'else' block of 'if' expression is incorrect"
  | .caseOfSwitch n => s!"{ordinal n} 'case' block of 'switch' expression is incorrect"
  | .elseOfSwitch => "'else' block of 'switch' expression is incorrect"
  | .withOfMatch n => s!"{ordinal n} 'with' block of 'match' expression is incorrect"
  | .elseOfMatch => "'else' block of 'match' expression is incorrect"

/-- Why tokens are no sentence of the grammar. -/
inductive Cause where
  /-- The next token is none of those that may stand there. -/
  | expected (what : String) (found : Token)
  /-- A literal without a value. -/
  | badLiteral (kind : Token.Kind) (negative : Bool) (text : String) (problem : Literal.Problem)
  /-- A literal without a value in a pattern. -/
  | badLiteralPattern (text : String) (problem : Literal.Problem)
  /-- A field with a name among fields without, the n-th one. -/
  | namedInTuple (form : FieldSyntax) (n : Nat)
  /-- A field without a name among fields with names, the n-th one. -/
  | unnamedInRecord (form : FieldSyntax) (n : Nat)
  /-- A field is bound to a variable of another name. -/
  | renamedField (binder : FieldBinder) (field target : String)
  /-- An assignment to an expression that names no place. -/
  | notAssignable (label : String)
  /-- A block without statements is used as a value. -/
  | emptyBlock
  /-- A block is used as a value but its last statement has none. -/
  | noValue (label : String)
  /-- A rule went on without taking a token. -/
  | stalled
deriving DecidableEq, Repr

/-- A token as messages show what stands in the way. -/
def foundText (t : Token) : String :=
  match t.kind with
  | .eof => "EOF"
  | .newline => "end of line"
  | .illegal => s!"illegal token '{t.text}'"
  | _ => s!"'{t.text}'"

/-- The message of a syntax error. -/
def Cause.message : Cause → String
  | .expected what found => s!"Expected {what} but got {foundText found}"
  | .badLiteral kind negative text problem =>
    let sign := if negative then "-" else ""
    s!"Invalid {Literal.kindName kind} literal {sign}{text}: {problem.message}"
  | .badLiteralPattern text problem => s!"Invalid literal {text} in pattern: {problem.message}"
  | .namedInTuple .type _ => "Mixing unnamed and named fields is not permitted in tuple type"
  | .unnamedInRecord .type _ => "Mixing unnamed and named fields are not permitted in record type"
  | .namedInTuple .literal n => s!"{ordinal n} field of tuple literal must be unnamed"
  | .unnamedInRecord .literal n => s!"{ordinal n} field of record literal must be named"
  | .renamedField binder field target =>
    s!"Renaming field '{field}' to '{target}' is not permitted in record {binder.name}"
  | .notAssignable label => s!"Cannot assign to '{label}'"
  | .emptyBlock => "Blocks in expression must end with an expression, but the block is empty"
  | .noValue label =>
    s!"Blocks in expression must end with an expression but the last item in block is '{label}'"
  | .stalled => "Nothing more can be read here"

/-- A syntax error: its cause, where it is, and the branches that it arose in, innermost first. -/
structure Fault where
  cause : Cause
  start : Position
  stop : Option Position
  branches : List (Position × Branch)

namespace Fault

/-- A fault over a stretch of the source. -/
def across (span : Span) (cause : Cause) : Fault := ⟨cause, span.start, some span.stop, []⟩

/-- A fault at a point of the source. -/
def pointAt (p : Position) (cause : Cause) : Fault := ⟨cause, p, none, []⟩

/-- The fault, known to be in a branch of a construct at a position. -/
def inBranch (f : Fault) (p : Position) (branch : Branch) : Fault :=
  { f with branches := f.branches ++ [(p, branch)] }

/-- The message of a fault. -/
def message (f : Fault) : String := f.cause.message

/-- The fault as a diagnostic of its source. -/
def diagnostic (source : Source) (f : Fault) : Diagnostic :=
  f.branches.foldl (fun d b => d.noteAt source b.1 b.2.message)
    ⟨source, f.start, f.stop, f.message, []⟩

end Fault

/-- All faults of a file, in order. -/
structure Rejection where
  first : Fault
  more : List Fault

/-- The faults as one diagnostic: a fault that is alone as it is, several as notes on their
number. -/
def Rejection.diagnostic (source : Source) (r : Rejection) : Diagnostic :=
  if r.more.isEmpty then r.first.diagnostic source
  else
    let count := r.more.length + 1
    (r.first :: r.more).foldl (fun d f => d.noteAt source f.start f.message)
      (.pointAt source r.first.start s!"{count} error(s) while parsing")

end Frontend.Grammar
