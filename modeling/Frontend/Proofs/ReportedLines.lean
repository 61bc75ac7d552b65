import Frontend.Diagnostic.Report
import Frontend.Proofs.PlacedFiles

/-!
Where reports point. A report counts the bytes of the decoded text, and a position those of the
source; they agree as far as the source can be read, and no error begins behind that. Lines are
counted in two ways, too: for a position only a line feed ends one, for a report there are other
characters that do.
-/
namespace Frontend

/-- How many characters of a text end a line in reports and are no line feeds, where more text
follows. -/
def Diagnostic.otherEnds (more : List Char) : List Char → Nat
  | [] => 0
  | c :: text =>
    (if c ≠ '\n' ∧ Diagnostic.endsLine c (text ++ more) then 1 else 0) + otherEnds more text

namespace Utf8

/-- Lossy decoding changes nothing in front of what is ill-formed. -/
theorem decodeLossy_append (text : List Char) (more : List UInt8) :
    decodeLossy (encode text ++ more) = text ++ decodeLossy more := by
  induction text with
  | nil => rfl
  | cons c text ih =>
    rw [encode_cons, List.append_assoc, decodeLossy_encodeChar, ih, List.cons_append]

theorem decodeLossy_ne_nil {bytes : List UInt8} (some : bytes ≠ []) : decodeLossy bytes ≠ [] := by
  cases bytes with
  | nil => exact absurd rfl some
  | cons b rest =>
    rw [decodeLossy]
    split <;> exact List.cons_ne_nil _ _

theorem encode_ne_nil {text : List Char} (some : text ≠ []) : encode text ≠ [] := by
  cases text with
  | nil => exact absurd rfl some
  | cons c text =>
    have positive := length_encodeChar_pos c
    rw [encode_cons]
    intro nothing
    rw [(List.append_eq_nil_iff.mp nothing).1] at positive
    cases positive

end Utf8

/-- Reading on adds the lines that are ended on the way. -/
theorem Position.line_after (p : Position) (text : List Char) :
    (p.after text).line = p.line + text.count '\n' := by
  induction text generalizing p with
  | nil => rfl
  | cons c text ih =>
    rw [after_cons, ih, advance]
    by_cases newline : c = '\n'
    · rw [if_pos newline, newline, List.count_cons_self]
      exact Nat.add_right_comm _ _ _
    · rw [if_neg newline, List.count_cons_of_ne newline]

namespace Diagnostic

variable {read more : List Char} {start stop size : Nat}

theorem endsLine_newline (rest : List Char) : endsLine '\n' rest = true := rfl

/-- The line of a byte behind some text. -/
theorem line_behind (line column : Nat) :
    (lineAndColumn.go (read ++ more) (Utf8.encode read).length line column).1 =
      line + read.count '\n' + otherEnds more read := by
  induction read generalizing line column with
  | nil =>
    cases more with
    | nil => rfl
    | cons c more =>
      have here : (Utf8.encode []).length < c.utf8Size := c.utf8Size_pos
      rw [List.nil_append, lineAndColumn.go, if_pos here]
      rfl
  | cons c read ih =>
    have size : (Utf8.encode (c :: read)).length = c.utf8Size + (Utf8.encode read).length := by
      rw [Utf8.encode_cons, List.length_append, String.length_utf8EncodeChar]
    rw [List.cons_append, lineAndColumn.go, size, if_neg (by omega), Nat.add_sub_cancel_left]
    by_cases newline : c = '\n'
    · subst newline
      rw [if_pos (endsLine_newline _), ih, otherEnds, List.count_cons_self, if_neg (by simp)]
      omega
    · rw [List.count_cons_of_ne newline, otherEnds]
      by_cases ends : endsLine c (read ++ more) = true
      · rw [if_pos ends, ih, if_pos ⟨newline, ends⟩]
        omega
      · rw [if_neg ends, ih, if_neg fun both => ends both.2]
        omega

/-- A span that begins inside of a text begins where it is marked. -/
theorem fit_inside (inside : start < size) :
    (fit start stop size).1 = start ∧ start < (fit start stop size).2 ∧
      (fit start stop size).2 ≤ size := by
  have least : min start size = start := Nat.min_eq_left (Nat.le_of_lt inside)
  simp only [fit, widen, least]
  rw [if_neg (by omega)]
  exact ⟨rfl, by omega, by omega⟩

/-- A span that begins at the end of a text is marked at the last byte. -/
theorem fit_end (filled : 0 < size) (behind : size ≤ start) :
    fit start stop size = (size - 1, size) := by
  have least : min start size = size := Nat.min_eq_right behind
  simp only [fit, widen, least]
  rw [if_pos (by omega)]

/-- A diagnostic begins behind some text that leads its source. -/
structure Behind (d : Diagnostic) (read : List Char) (rest : List UInt8) : Prop where
  code : d.source.code = Utf8.encode read ++ rest
  offset : d.start.offset = (Utf8.encode read).length
  line : d.start.line = 1 + read.count '\n'

namespace Behind

variable {d : Diagnostic} {rest : List UInt8} (h : d.Behind read rest)

include h

theorem decoded : Utf8.decodeLossy d.source.code = read ++ Utf8.decodeLossy rest := by
  rw [h.code, Utf8.decodeLossy_append]

theorem before : d.source.code.take d.start.offset = Utf8.encode read := by
  rw [h.offset, h.code, List.take_left]

theorem length_code : d.source.code.length = d.start.offset + rest.length := by
  rw [h.code, h.offset, List.length_append]

theorem length_text : (Utf8.encode (Utf8.decodeLossy d.source.code)).length =
    d.start.offset + (Utf8.encode (Utf8.decodeLossy rest)).length := by
  rw [h.decoded, Utf8.encode_append, List.length_append, h.offset]

/-- In front of some more bytes, the mark begins where the diagnostic does. -/
theorem marked_inside (more : rest ≠ []) : d.markedSpan.1 = d.start.offset ∧
    d.start.offset < d.markedSpan.2 ∧
    d.markedSpan.2 ≤ (Utf8.encode (Utf8.decodeLossy d.source.code)).length := by
  have shown := List.length_pos_of_ne_nil (Utf8.encode_ne_nil (Utf8.decodeLossy_ne_nil more))
  have size := h.length_text
  exact fit_inside (by omega)

/-- At the end of a source, the last byte is marked. -/
theorem marked_end (filled : d.source.code ≠ []) (last : rest = []) :
    0 < (Utf8.encode (Utf8.decodeLossy d.source.code)).length ∧
    d.markedSpan = ((Utf8.encode (Utf8.decodeLossy d.source.code)).length - 1,
      (Utf8.encode (Utf8.decodeLossy d.source.code)).length) := by
  have shown := List.length_pos_of_ne_nil (Utf8.encode_ne_nil (Utf8.decodeLossy_ne_nil filled))
  have whole : (Utf8.encode (Utf8.decodeLossy d.source.code)).length = d.start.offset := by
    rw [h.length_text, last]
    simp [Utf8.decodeLossy]
  exact ⟨shown, fit_end shown whole.le⟩

/-- What a report cites of a mark behind the text. -/
theorem location (marked : d.markedSpan.1 = d.start.offset) :
    ∃ column : Nat, d.report.location =
      s!"{d.source.name}:{d.start.line + otherEnds (Utf8.decodeLossy rest) read}:{column}" := by
  have location : d.report.location =
      s!"{d.source.name}:{(lineAndColumn (Utf8.decodeLossy d.source.code) d.markedSpan.1).1}:" ++
        toString (lineAndColumn (Utf8.decodeLossy d.source.code) d.markedSpan.1).2 := rfl
  rw [h.decoded, marked, h.offset, lineAndColumn, line_behind, ← h.line] at location
  exact ⟨_, location⟩

end Behind

end Diagnostic

/-- An error begins behind some text that leads its source. -/
theorem exists_read_before {source : Source} {d : Diagnostic}
    (failed : (parse source).result = .error d) :
    d.source = source ∧ ∃ read rest, d.Behind read rest := by
  have placed : d.At (fun p => ∃ text, Scan.Faces source p text) source :=
    parse_error_at (fun _ text faces => ⟨text, faces⟩) failed
  obtain ⟨ahead, read, tail, whole, -, start_eq⟩ := placed.start
  refine ⟨placed.own, read, Utf8.encode ahead ++ tail, ?_, ?_, ?_⟩
  · rw [placed.own, whole, Utf8.encode_append, List.append_assoc]
  · rw [start_eq, Position.start_after]
    rfl
  · rw [start_eq, Position.line_after]
    rfl

/-- The place of an error and of the report on it, if a source is rejected. -/
def rejectedAt (source : Source) : Option (Position × String) :=
  match (parse source).result with
  | .error d => some (d.start, d.report.location)
  | .ok _ => none

theorem exists_of_rejectedAt {source : Source} {start : Position} {location : String}
    (h : rejectedAt source = some (start, location)) :
    ∃ d, (parse source).result = .error d ∧ d.start = start ∧ d.report.location = location := by
  unfold rejectedAt at h
  split at h
  next d failed =>
    cases h
    exact ⟨d, failed, rfl, rfl⟩
  next => cases h

end Frontend
