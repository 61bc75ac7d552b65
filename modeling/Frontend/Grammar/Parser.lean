import Frontend.Grammar.Cursor

/-!
Parsers: functions that move a cursor on and yield a value or a fault. A fault leaves the cursor
where it arose. Repetition (`iterate`) goes on only while tokens are taken, so every parser comes
to an end whatever its steps are.
-/
namespace Frontend.Grammar

open Token (Kind)

/-- A reader of tokens. -/
abbrev Parser (α : Type) : Type := EStateM Fault Cursor α

namespace Parser

/-- The parser that reads nothing and fails. -/
def fail {α : Type} (f : Fault) : Parser α := fun c => .error f c

/-- Tells the log. -/
def tell (e : Event) : Parser Unit := fun c => .ok () (c.tell e)

/-- The n-th token from here, counted from zero. -/
def peekAt (n : Nat) : Parser Token := fun c =>
  let c := c.receive n
  .ok (c.token n) c

/-- The kind of the n-th token from here. -/
def kindAt (n : Nat) : Parser Kind := do
  let t ← peekAt n
  pure t.kind

/-- The kind of the next token. -/
def kind : Parser Kind := kindAt 0

/-- Takes the next token. -/
def next : Parser Token := fun c =>
  let c := c.receive 0
  .ok (c.token 0) c.advance

/-- Where the last token taken ends. -/
def place : Parser Position := fun c => .ok c.place c

/-- Fails because the next token is not `what`. -/
def unexpected {α : Type} (what : String) : Parser α := do
  let t ← peekAt 0
  fail (.across t.span (.expected what t))

/-- Takes the next token if it is of a kind. -/
def eat (k : Kind) : Parser (Option Token) := do
  if (← kind) = k then
    let t ← next
    pure (some t)
  else pure none

/-- Takes the next token if it is of a kind, and tells whether it is. -/
def ate (k : Kind) : Parser Bool := do
  let t ← eat k
  pure t.isSome

/-- Takes the next token, which must be of a kind. -/
def expect (k : Kind) (what : String) : Parser Token := do
  match ← eat k with
  | some t => pure t
  | none => unexpected what

/-- Takes an identifier. -/
def expectIdent (what : String) : Parser Token := expect .ident what

/-- What one turn of a repetition comes to. -/
inductive Turn (σ β : Type) where
  | again (s : σ)
  | done (b : β)

/-- Takes turns until one is the last. A turn that is not the last has to take a token. -/
def iterate {σ β : Type} (turn : σ → Parser (Turn σ β)) (s : σ) : Parser β := fun c =>
  match turn s c with
  | .error f c' => .error f c'
  | .ok (.done b) c' => .ok b c'
  | .ok (.again s') c' =>
    if c'.remaining < c.remaining then iterate turn s' c' else .error (.pointAt c'.place .stalled) c'
termination_by c => c.remaining

/-- A turn that ends a repetition is its result. -/
theorem iterate_done {σ β : Type} {turn : σ → Parser (Turn σ β)} {s : σ} {b : β} {c c' : Cursor}
    (h : turn s c = .ok (.done b) c') : iterate turn s c = .ok b c' := by
  rw [iterate, h]

/-- A turn that takes a token is followed by the rest of the repetition. -/
theorem iterate_again {σ β : Type} {turn : σ → Parser (Turn σ β)} {s s' : σ} {c c' : Cursor}
    (h : turn s c = .ok (.again s') c') (less : c'.remaining < c.remaining) :
    iterate turn s c = iterate turn s' c' := by
  rw [iterate, h]
  exact if_pos less

/-- A turn that fails ends a repetition. -/
theorem iterate_error {σ β : Type} {turn : σ → Parser (Turn σ β)} {s : σ} {f : Fault}
    {c c' : Cursor} (h : turn s c = .error f c') : iterate turn s c = .error f c' := by
  rw [iterate, h]

/-- Takes tokens as long as their kind is of a class. -/
def skipWhile (p : Kind → Bool) : Parser Unit :=
  iterate (fun _ => do
    if p (← kind) then
      let _ ← next
      pure (.again ())
    else pure (.done ())) ()

/-- Takes newlines. -/
def skipNewlines : Parser Unit := skipWhile (· = .newline)

/-- Takes newlines and semicolons. -/
def skipSeparators : Parser Unit := skipWhile Kind.isSeparator

/-- Where the separators that begin at the n-th token end. Nothing is taken. -/
def separatorsEnd (n : Nat) : Parser Nat := fun c =>
  let stop := n + ((c.upcoming.drop n).takeWhile (·.kind.isSeparator)).length
  .ok stop (c.receive stop)

/-- One or more items between commas. Newlines may follow a comma. -/
def commaList {α : Type} (item : Parser α) : Parser (List α) := do
  let first ← item
  iterate (fun items => do
    if ← ate .comma then
      skipNewlines
      let more ← item
      pure (.again (more :: items))
    else pure (.done items.reverse)) [first]

/-- Items between commas up to a closing token, which is not taken. Newlines may stand around
items and commas, and a comma may follow the last item. An item may depend on those before it,
which are handed to it latest first. -/
def closedList {α : Type} (close : Kind) (item : List α → Parser α) : Parser (List α) := do
  skipNewlines
  iterate (fun items => do
    if (← kind) = close then pure (.done items.reverse)
    else
      let more ← item items
      skipNewlines
      if ← ate .comma then
        skipNewlines
        pure (.again (more :: items))
      else pure (.done (more :: items).reverse)) []

/-- A list as by `closedList`, which may end with `...` and what belongs to it. -/
def closedListWithRest {α ρ : Type} (close : Kind) (item : Parser α) (rest : Parser ρ) :
    Parser (List α × Option ρ) := do
  skipNewlines
  iterate (fun items => do
    let k ← kind
    if k = close then pure (.done (items.reverse, none))
    else if k = .ellipsis then
      let r ← rest
      skipNewlines
      pure (.done (items.reverse, some r))
    else
      let more ← item
      skipNewlines
      if ← ate .comma then
        skipNewlines
        pure (.again (more :: items))
      else pure (.done ((more :: items).reverse, none))) []

end Parser

end Frontend.Grammar
