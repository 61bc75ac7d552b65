import Frontend.Grammar.Fault

/-!
A cursor over a token stream. Tokens are received one by one, as far as somebody looks ahead, and
taken one by one. A stream ends with its first terminal token, or where it is closed without one;
the cursor then sees an end-of-file token at the place that it has come to. Either token is seen
again at every position past the end, and nothing behind a terminal token is ever received.

The cursor counts the tokens before the end that are still to be taken. Rules of a grammar that
take a token leave a smaller count, and recursion over a grammar rests on that.
-/
namespace Frontend.Grammar

/-- What a parser tells a log. -/
inductive Event where
  | started (name : String)
  | received (token : Token)
  | parsedImport (path : String)
  | parsedFunction (name : String)
  | rejected (fault : Fault)
  | parsed (name : String)

/-- The text of an event in a log. -/
def Event.message : Event → String
  | .started name => s!"Start parsing {name}"
  | .received token => s!"Parser received token: {token.render}"
  | .parsedImport path => s!"Parsed import '{path}'"
  | .parsedFunction name => s!"Parsed function '{name}'"
  | .rejected fault => s!"Syntax error: {fault.message}"
  | .parsed name => s!"Parsed {name} successfully"

/-- A point of a token stream. `upcoming` are the tokens before the end that are not taken yet,
`terminal` the token that the stream ends with if it has one. The first `received` of the upcoming
tokens have been received, and so has the end once `ending` is there. `place` is where the last
token taken ends. Events are kept latest first. -/
structure Cursor where
  upcoming : List Token
  remaining : Nat
  terminal : Option Token
  received : Nat
  ending : Option Token
  place : Position
  events : List Event
  remaining_eq : remaining = upcoming.length := by rfl

namespace Cursor

/-- The start of a stream. Comments are no part of what a grammar sees. -/
def ofTokens (tokens : List Token) : Cursor :=
  let seen := tokens.filter (·.kind != .comment)
  let upcoming := seen.takeWhile (!·.kind.isTerminal)
  { upcoming
    remaining := upcoming.length
    terminal := seen.find? (·.kind.isTerminal)
    received := 0
    ending := none
    place := .start
    events := [] }

/-- One more event. -/
def tell (c : Cursor) (e : Event) : Cursor := { c with events := e :: c.events }

/-- The end of the stream, received. -/
def receiveEnd (c : Cursor) : Cursor :=
  match c.ending, c.terminal with
  | some _, _ => c
  | none, some t => { c with ending := some t, events := .received t :: c.events }
  | none, none => { c with ending := some (.eofAt c.place) }

/-- All tokens up to the n-th one from here, counted from zero, received. -/
def receive (c : Cursor) (n : Nat) : Cursor :=
  if n < c.received then c
  else
    let fresh := (c.upcoming.drop c.received).take (n + 1 - c.received)
    let c' := { c with
      received := c.received + fresh.length
      events := (fresh.map Event.received).reverse ++ c.events }
    if n < c.remaining then c' else c'.receiveEnd

/-- The token that every position past the end shows. -/
def last (c : Cursor) : Token := (c.ending.or c.terminal).getD (.eofAt c.place)

/-- The n-th token from here, counted from zero. -/
def token (c : Cursor) (n : Nat) : Token := c.upcoming[n]?.getD c.last

/-- The cursor behind the next token. -/
def advance (c : Cursor) : Cursor :=
  match h : c.upcoming with
  | [] => { c with place := c.last.span.stop }
  | t :: rest =>
    { c with
      upcoming := rest
      remaining := c.remaining - 1
      received := c.received - 1
      place := t.span.stop
      remaining_eq := by rw [c.remaining_eq, h]; rfl }

@[simp] theorem upcoming_receiveEnd (c : Cursor) : c.receiveEnd.upcoming = c.upcoming := by
  unfold receiveEnd
  split <;> rfl

@[simp] theorem last_receiveEnd (c : Cursor) : c.receiveEnd.last = c.last := by
  unfold receiveEnd
  split <;> simp [last, *]

/-- Receiving takes no token. -/
@[simp] theorem upcoming_receive (c : Cursor) (n : Nat) : (c.receive n).upcoming = c.upcoming := by
  simp only [receive]
  split
  · rfl
  · split
    · rfl
    · exact upcoming_receiveEnd _

@[simp] theorem remaining_receive (c : Cursor) (n : Nat) : (c.receive n).remaining = c.remaining := by
  rw [remaining_eq, upcoming_receive, ← remaining_eq]

/-- Receiving the end of a stream does not move it. -/
@[simp] theorem last_receive (c : Cursor) (n : Nat) : (c.receive n).last = c.last := by
  simp only [receive]
  split
  · rfl
  · split
    · rfl
    · exact last_receiveEnd _

/-- What a position shows does not depend on how far tokens have been received. -/
@[simp] theorem token_receive (c : Cursor) (n k : Nat) : (c.receive n).token k = c.token k := by
  simp [token]

@[simp] theorem upcoming_advance (c : Cursor) : c.advance.upcoming = c.upcoming.tail := by
  unfold advance
  split <;> simp [*]

theorem remaining_advance (c : Cursor) : c.advance.remaining = c.remaining - 1 := by
  rw [remaining_eq, upcoming_advance, List.length_tail, ← remaining_eq]

end Cursor

end Frontend.Grammar
