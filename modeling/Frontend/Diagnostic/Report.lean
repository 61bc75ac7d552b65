import Frontend.Diagnostic.Basic

/-!
What a boxed report shows of a diagnostic: a title, the line and column that its label points at,
and its notes. The label is placed in the lossily decoded text, whose bytes are counted.
-/
namespace Frontend.Diagnostic

/-- A span that is not empty: at least one byte after `start`. -/
def widen (start stop : Nat) : Nat × Nat := (start, max stop (start + 1))

/-- A span brought inside a text of `size` bytes. One at the end of the text points at the last
byte. -/
def fit (start stop size : Nat) : Nat × Nat :=
  let (start, stop) := widen (min start size) (min stop size)
  if stop > size ∧ size > 0 then (size - 1, size) else (start, stop)

/-- The characters that end a line: line feed, vertical tab, form feed, carriage return, next line,
and the line and paragraph separators. -/
def lineEnds : List Char := ['\n', '\x0b', '\x0c', '\r', '\x85', '\u2028', '\u2029']

/-- Whether a character ends its line when some text follows. A carriage return leaves that to a
line feed behind it. -/
def endsLine (c : Char) (rest : List Char) : Bool :=
  lineEnds.contains c && !(c == '\r' && rest.head? == some '\n')

/-- Line and column of a byte of a text: ends of lines before it and characters before it on its
line, both from one. -/
def lineAndColumn (text : List Char) (offset : Nat) : Nat × Nat :=
  go text offset 1 1
where
  go : List Char → Nat → Nat → Nat → Nat × Nat
    | c :: rest, offset, line, column =>
      if offset < c.utf8Size then (line, column)
      else if endsLine c rest then go rest (offset - c.utf8Size) (line + 1) 1
      else go rest (offset - c.utf8Size) line (column + 1)
    | [], _, line, column => (line, column)

/-- The span that a report marks, in bytes of the decoded text. -/
def markedSpan (d : Diagnostic) : Nat × Nat :=
  let stop := d.stop.elim d.start.offset (·.offset)
  fit d.start.offset stop (Utf8.encode (Utf8.decodeLossy d.source.code)).length

/-- The first line of a text that a line feed ends. A carriage return before the line feed belongs
to the end of the line. -/
def firstLine (text : List Char) : List Char :=
  let line := text.takeWhile (· != '\n')
  if line.getLast? = some '\r' then line.dropLast else line

/-- What is shown of a note: its first line, as a line of the report; nothing of an empty note. -/
def noteLine? (note : List Char) : Option String :=
  if note.isEmpty then none
  else some (String.ofList (firstLine (if '\n' ∈ note then firstLine note else note)))

/-- The visible part of a report. -/
structure Report where
  title : String
  location : String
  notes : List String

/-- The report on a diagnostic. The message and each note are shown by their first lines; several
notes are numbered, those that show nothing included. -/
def report (d : Diagnostic) : Report :=
  let (line, column) := lineAndColumn (Utf8.decodeLossy d.source.code) d.markedSpan.1
  let numbered := d.notes.zipIdx 1 |>.map fun (n, k) =>
    (noteLine? n.toList).map fun text =>
      if d.notes.length = 1 then s!": {text}" else s!" {k}: {text}"
  { title := "Error: " ++ String.ofList (firstLine d.message.toList)
    location := s!"{d.source.name}:{line}:{column}"
    notes := numbered.filterMap id }

end Frontend.Diagnostic
