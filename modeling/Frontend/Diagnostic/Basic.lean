import Frontend.Source

/-!
Compilation errors. A diagnostic has a message and a place, and collects notes on its way out of
the constructs that it arose in, innermost first.
-/
namespace Frontend

/-- A compilation error. With `stop` it is about a stretch of the source, without it about a
point. -/
structure Diagnostic where
  source : Source
  start : Position
  stop : Option Position
  message : String
  notes : List String

namespace Diagnostic

/-- An error about a stretch of a source. -/
def across (source : Source) (span : Span) (message : String) : Diagnostic :=
  ⟨source, span.start, some span.stop, message, []⟩

/-- An error about a point of a source. -/
def pointAt (source : Source) (p : Position) (message : String) : Diagnostic :=
  ⟨source, p, none, message, []⟩

/-- One more note. -/
def note (d : Diagnostic) (text : String) : Diagnostic :=
  { d with notes := d.notes ++ [text] }

/-- One more note that cites the position it refers to. -/
def noteAt (d : Diagnostic) (source : Source) (p : Position) (text : String) : Diagnostic :=
  d.note s!"{text} (at {source.cite p})"

/-- Notes on some items come behind those that are there, in order, each with its place. -/
theorem foldl_noteAt_eq {α : Type} (source : Source) (place : α → Position) (text : α → String)
    (items : List α) (d : Diagnostic) :
    items.foldl (fun d a => d.noteAt source (place a) (text a)) d =
      { d with notes := d.notes ++ items.map fun a => s!"{text a} (at {source.cite (place a)})" } := by
  induction items generalizing d with
  | nil => simp
  | cons a items ih =>
    rw [List.foldl_cons, ih]
    simp [noteAt, note]

/-- Notes on some items add one note each, and leave the place and the message as they are. -/
theorem foldl_noteAt {α : Type} (source : Source) (place : α → Position) (text : α → String)
    (items : List α) (d : Diagnostic) :
    let noted := items.foldl (fun d a => d.noteAt source (place a) (text a)) d
    noted.start = d.start ∧ noted.stop = d.stop ∧ noted.message = d.message ∧
      noted.notes.length = d.notes.length + items.length := by
  intro noted
  simp [noted, foldl_noteAt_eq]

/-- The part of the source that the error is about; empty for a point. -/
def snippet (d : Diagnostic) : String :=
  d.stop.elim "" fun stop => d.source.slice d.start.offset stop.offset

/-- The error as plain text: message and place, a line for each note, and the snippet quoted line
by line unless it is empty. -/
def render (d : Diagnostic) : String :=
  let head := s!"Error: {d.message} (at {d.source.cite d.start})"
  let notes := d.notes.map fun n => s!"\n  Note: {n}"
  let snippet := d.snippet
  let quoted := if snippet.isEmpty then "" else
    let lines := snippet.toList.flatMap fun c => if c = '\n' then ['\n', '>', ' '] else [c]
    s!"\n\n> {String.ofList lines}\n\n"
  String.join ([head] ++ notes ++ [quoted])

end Diagnostic

end Frontend
