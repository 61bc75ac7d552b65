import Frontend.Diagnostic.Basic
import Frontend.Token.Lexeme

/-!
Scanning a source into tokens for a consumer. `scan` runs over the text word by word; each word is
offered to the consumer, who may hang up after a number of tokens. A run ends at the end of the
text, at the first lexical error, or when the consumer has gone. Where every position comes from is
the text read so far, so the tokens lie in the source one behind the other.
-/
namespace Frontend

/-- A lexical error and the stretch of text it is about. -/
structure LexError where
  fault : Lexeme.Fault
  span : Span
deriving DecidableEq, Repr

/-- The error as a diagnostic of its source. -/
def LexError.diagnostic (source : Source) (e : LexError) : Diagnostic :=
  .across source e.span e.fault.message

namespace Scan

/-- What a scanner tells a log. -/
inductive Event where
  | started (name : String)
  | lexed (token : Token)
  | failed (fault : Lexeme.Fault)
  | consumerGone
  | finished (name : String)

/-- The text of an event in a log. -/
def Event.message : Event → String
  | .started name => s!"Start lexing {name}"
  | .lexed token => s!"Lexed token: {token.render}"
  | .failed fault => s!"Lexical error: {fault.message}"
  | .consumerGone => "Token receiver was dropped. Lexer quitting"
  | .finished name => s!"Finished lexing {name}"

/-- What a run leaves behind: the tokens that the consumer took, the errors reported, and the
events, each in order. -/
structure Outcome where
  tokens : List Token
  errors : List LexError
  events : List Event

/-- A run that does nothing but end. -/
def Outcome.ended (last : Event) : Outcome := ⟨[], [], [last]⟩

/-- Kinds that are recognised while the next word is still being chosen. A scanner that loses its
consumer on such a token ends like one that is done; on any other token it says why it ends. -/
def recognisedAtOnce (k : Token.Kind) : Bool :=
  k ∈ [.newline, .semicolon, .lparen, .rparen, .lbrace, .rbrace, .lbracket, .rbracket, .comma,
    .plus, .star, .div, .percent, .less, .lessEqual, .greater, .greaterEqual, .minus, .arrow,
    .or, .and]

/-- A run over the rest of a text, which is cut off at `cut` and begins at `here`. A consumer with
`room` for no more tokens has gone; one without a limit stays. -/
def onward (name : String) (cut : Option UInt8) (room : Option Nat) (here : Position)
    (text : List Char) : Outcome :=
  let blank := text.takeWhile Lexeme.isBlank
  let rest := text.drop blank.length
  let start := here.after blank
  match h : Lexeme.read cut rest with
  | .fault fault size =>
    let word := rest.take size
    let span := ⟨start, start.after word⟩
    let token := ⟨.illegal, String.ofList word, span⟩
    ⟨if room = some 0 then [] else [token], [⟨fault, span⟩],
      [.failed fault, .lexed token, .finished name]⟩
  | .token kind size =>
    let word := rest.take size
    let stop := start.after word
    let token := ⟨kind, String.ofList word, start, stop⟩
    if room = some 0 then
      let last := if kind = .eof ∨ recognisedAtOnce kind then .finished name else .consumerGone
      ⟨[], [], [.lexed token, last]⟩
    else if kind = .eof then ⟨[token], [], [.lexed token, .finished name]⟩
    else
      let more := onward name cut (room.map (· - 1)) stop (rest.drop size)
      ⟨token :: more.tokens, more.errors, .lexed token :: more.events⟩
termination_by text.length
decreasing_by
  obtain rfl | ⟨nonempty, positive⟩ := Lexeme.read_size h
  · contradiction
  · have := List.length_pos_iff.mpr nonempty
    simp only [rest, List.length_drop] at this ⊢
    omega

section Equations

variable {name : String} {cut : Option UInt8} {room : Option Nat} {here : Position}
  {text gap rest : List Char} {kind : Token.Kind} {fault : Lexeme.Fault} {size : Nat}

/-- A run in front of a fault. It is reported, and then the stretch that it is about is offered. -/
theorem onward_of_fault (gap_eq : text.takeWhile Lexeme.isBlank = gap)
    (rest_eq : text.drop gap.length = rest) (read : Lexeme.read cut rest = .fault fault size) :
    let word := rest.take size
    let span : Span := ⟨here.after gap, (here.after gap).after word⟩
    let token : Token := ⟨.illegal, String.ofList word, span⟩
    onward name cut room here text = ⟨if room = some 0 then [] else [token], [⟨fault, span⟩],
      [.failed fault, .lexed token, .finished name]⟩ := by
  subst gap_eq rest_eq
  rw [onward]
  split
  next found =>
    rw [read] at found
    cases found
    rfl
  next found =>
    rw [read] at found
    cases found

/-- A run in front of a token. -/
theorem onward_of_token (gap_eq : text.takeWhile Lexeme.isBlank = gap)
    (rest_eq : text.drop gap.length = rest) (read : Lexeme.read cut rest = .token kind size) :
    let word := rest.take size
    let stop := (here.after gap).after word
    let token : Token := ⟨kind, String.ofList word, here.after gap, stop⟩
    onward name cut room here text =
      if room = some 0 then
        ⟨[], [], [.lexed token,
          if kind = .eof ∨ recognisedAtOnce kind then .finished name else .consumerGone]⟩
      else if kind = .eof then ⟨[token], [], [.lexed token, .finished name]⟩
      else
        let more := onward name cut (room.map (· - 1)) stop (rest.drop size)
        ⟨token :: more.tokens, more.errors, .lexed token :: more.events⟩ := by
  subst gap_eq rest_eq
  rw [onward]
  split
  next found =>
    rw [read] at found
    cases found
  next found =>
    rw [read] at found
    cases found
    rfl

end Equations

/-- A run over a whole source, for a consumer with room for `room` tokens. -/
def run (source : Source) (room : Option Nat) : Outcome :=
  let (text, cut) := Utf8.readable source.code
  let outcome := onward source.name cut room .start text
  { outcome with events := .started source.name :: outcome.events }

end Scan

/-- The run over a source for a consumer who stays to the end. -/
def scan (source : Source) : Scan.Outcome := Scan.run source none

/-- All tokens of a source, or its first lexical error. -/
def tokenize (source : Source) : Except Diagnostic (List Token) :=
  let outcome := scan source
  match outcome.errors with
  | e :: _ => .error (e.diagnostic source)
  | [] => .ok outcome.tokens

/-- A listing with one token per line. -/
def Token.listing (tokens : List Token) : String :=
  String.join (tokens.map fun t => t.render ++ "\n")

end Frontend
