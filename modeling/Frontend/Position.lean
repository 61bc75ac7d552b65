/-!
Points of a source text and the stretches between two of them. A position is the state that
reading the text from its start leaves behind: `Position.after` folds it over the characters read,
so two readings of one text agree on every position.
-/
namespace Frontend

/-- A point of a source: bytes before it, its line, and its column in bytes. Lines and columns
count from one. -/
structure Position where
  offset : Nat
  line : Nat
  column : Nat
deriving DecidableEq, Repr, Inhabited

namespace Position

/-- The start of every source. -/
def start : Position := ⟨0, 1, 1⟩

/-- The position after one more character. A newline starts the next line. -/
def advance (p : Position) (c : Char) : Position :=
  if c = '\n' then ⟨p.offset + c.utf8Size, p.line + 1, 1⟩
  else ⟨p.offset + c.utf8Size, p.line, p.column + c.utf8Size⟩

/-- The position after a stretch of text. -/
def after (p : Position) (text : List Char) : Position :=
  text.foldl advance p

/-- Line and column, as messages cite them. -/
def lineColumn (p : Position) : String := s!"{p.line}:{p.column}"

@[simp] theorem after_nil (p : Position) : p.after [] = p := rfl

@[simp] theorem after_cons (p : Position) (c : Char) (text : List Char) :
    p.after (c :: text) = (p.advance c).after text := rfl

theorem after_append (p : Position) (a b : List Char) : p.after (a ++ b) = (p.after a).after b := by
  simp [after]

@[simp] theorem offset_advance (p : Position) (c : Char) :
    (p.advance c).offset = p.offset + c.utf8Size := by
  unfold advance
  split <;> rfl

end Position

/-- A stretch of a source, from `start` up to and without `stop`. -/
structure Span where
  start : Position
  stop : Position
deriving DecidableEq, Repr, Inhabited

namespace Span

/-- The empty span at a position. -/
def point (p : Position) : Span := ⟨p, p⟩

/-- From the start of one span to the stop of another. -/
def through (first last : Span) : Span := ⟨first.start, last.stop⟩

/-- The span as listings show it: both ends as line and column. -/
def lineColumns (s : Span) : String := s!"{s.start.lineColumn}-{s.stop.lineColumn}"

end Span

end Frontend
