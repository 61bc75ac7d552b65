import Frontend.Attempt
import Frontend.Grammar.Toplevel
import Frontend.Token.Scan

/-!
Parsing of whole files. After a fault the parser goes on at the next word that begins a
declaration, so that the faults of several declarations are reported together. A lexical error
comes before all of them.
-/
namespace Frontend.Grammar

open Frontend.Grammar.Parser
open Token (Kind)

/-- A word that begins a declaration. -/
def beginsToplevel (k : Kind) : Bool := k = .funcWord || k = .typeWord || k = .importWord

/-- Goes on to the next word that begins a declaration, past at least one token. -/
def recover : Parser Unit := do
  if (← kind).isTerminal then pure ()
  else
    let _ ← next
    skipWhile fun k => !k.isTerminal && !beginsToplevel k

/-- What has been read of a file: declarations and faults, latest first. -/
structure Harvest where
  decls : List Toplevel
  faults : List Fault

/-- The fault at the end of a file that is empty or ends with an illegal token. It counts only if
there is no other. -/
def endFault (h : Harvest) : Parser Harvest := do
  let k ← kind
  if (h.decls.isEmpty ∨ k = .illegal) ∧ h.faults.isEmpty then
    match ← attempt (unexpected "toplevel" : Parser Unit) with
    | .error f => pure { h with faults := [f] }
    | .ok () => pure h
  else pure h

/-- One more declaration of a file, or its end. -/
def fileStep (rules : Rules) (h : Harvest) : Parser (Turn Harvest Harvest) := do
  skipSeparators
  if (← kind).isTerminal then
    let h ← endFault h
    pure (.done h)
  else
    match ← attempt (toplevelItem rules) with
    | .ok decl => pure (.again { h with decls := decl :: h.decls })
    | .error f =>
      tell (.rejected f)
      recover
      pure (.again { h with faults := f :: h.faults })

/-- All declarations and faults of a stream. -/
def harvest : Parser Harvest := iterate (fileStep full) ⟨[], []⟩

/-- The declarations of a stream of tokens. -/
def file (name : String) : Parser (Except Rejection (List Toplevel)) := do
  tell (.started name)
  let h ← harvest
  match h.faults.reverse with
  | [] =>
    tell (.parsed name)
    pure (.ok h.decls.reverse)
  | first :: more => pure (.error ⟨first, more⟩)

end Grammar

/-- What comes of a parser: the declarations or a diagnostic, and the events in order. -/
structure Parsed where
  result : Except Diagnostic (List Toplevel)
  events : List Grammar.Event

/-- Parses tokens of a source. -/
def parseTokens (source : Source) (tokens : List Token) : Parsed :=
  match Grammar.file source.name (.ofTokens tokens) with
  | .ok (.ok decls) c => ⟨.ok decls, c.events.reverse⟩
  | .ok (.error r) c => ⟨.error (r.diagnostic source), c.events.reverse⟩
  | .error f c => ⟨.error (f.diagnostic source), c.events.reverse⟩

/-- Parses a source. A lexical error wins over syntax errors. -/
def parse (source : Source) : Parsed :=
  let outcome := scan source
  let parsed := parseTokens source outcome.tokens
  match outcome.errors with
  | e :: _ => { parsed with result := .error (e.diagnostic source) }
  | [] => parsed

/-- Without lexical errors it is the tokens that decide what a source is parsed to. -/
theorem parse_of_clean {source : Source} (clean : (scan source).errors = []) :
    (parse source).result = (parseTokens source (scan source).tokens).result := by
  simp only [parse, clean]

/-- A source that is parsed to a tree has no lexical errors. -/
theorem clean_of_parse {source : Source} {decls : List Toplevel}
    (parsed : (parse source).result = .ok decls) : (scan source).errors = [] := by
  cases errors : (scan source).errors with
  | nil => rfl
  | cons e more =>
    simp only [parse, errors] at parsed
    cases parsed

end Frontend
