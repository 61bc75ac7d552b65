import Frontend.Proofs.LongestWords
import Frontend.Proofs.SpacedWords
import Frontend.Proofs.SpelledLiterals
import Frontend.Proofs.StringUnits

/-!
Where a string ends and what it stands for. A scanner looks for the closing quote in steps of one
character, or of two behind a backslash; the units of a literal may be longer. They agree because
what a unit has beyond these steps are digits.
-/
namespace Frontend

namespace Literal

open Lexeme
open Lexicon (Inner)

variable {inner rest unit : List Char} {bytes : List UInt8}

/-- Units are read off a text up to the rest, and no unit is at the head of that. -/
def StuckAt (text rest : List Char) : Prop :=
  (∃ units : List (List Char × List UInt8),
      (∀ u ∈ units, IsUnit u.1 u.2) ∧ text = units.flatMap (·.1) ++ rest) ∧
    rest ≠ [] ∧ ∀ unit bytes more, IsUnit unit bytes → rest ≠ unit ++ more

/-- A text that stands for no bytes is stuck somewhere, and the other way round. -/
theorem unescape?_eq_none_iff : unescape? inner = none ↔ ∃ rest, StuckAt inner rest := by
  constructor
  · intro failed
    obtain ⟨units, rest, row, rfl, stuck⟩ := exists_units inner
    refine ⟨rest, ⟨units, row, rfl⟩, ?_, stuck⟩
    rintro rfl
    rw [unescape?_units row, unescape?_nil] at failed
    cases failed
  · rintro ⟨rest, ⟨units, row, rfl⟩, present, stuck⟩
    rw [unescape?_units row, unescape?_eq_none present stuck, Option.map_none]

theorem free_of_isHexDigit {c : Char} (hex : isHexDigit c = true) : c ≠ '\\' := by
  rintro rfl
  exact absurd hex (by decide)

theorem isHexDigit_of_octal {c : Char} (octal : '0' ≤ c ∧ c ≤ '7') : isHexDigit c = true :=
  forall_between (P := fun c => isHexDigit c = true) octal.1 octal.2 (by decide)

/-- Beyond the character behind its backslash, an escape has digits only. -/
theorem Escape.cons_digits (h : Escape unit bytes) :
    ∃ c digits, unit = c :: digits ∧ ∀ d ∈ digits, isHexDigit d = true := by
  cases h with
  | @named c value listed => exact ⟨c, [], rfl, by simp⟩
  | octal three octal byte =>
    cases unit with
    | nil => cases three
    | cons c digits =>
      exact ⟨c, digits, rfl, fun d mem => isHexDigit_of_octal (octal d (.tail _ mem))⟩
  | byte two hex => exact ⟨'x', _, rfl, hex⟩
  | codePoint size hex scalar => exact ⟨_, _, rfl, hex⟩

end Literal

namespace Lexicon

open Literal

variable {text inner rest unit digits : List Char} {bytes : List UInt8} {c : Char}

theorem Inner.tail (free : c ≠ '\\') (h : Inner (c :: text)) : Inner text := by
  cases h with
  | plain _ more => exact more
  | escape _ => exact absurd rfl free

theorem Inner.second (h : Inner ('\\' :: c :: text)) : Inner text := by
  cases h with
  | plain free _ => exact absurd rfl free.2
  | escape more => exact more

/-- Characters that take nothing with them may be left out in front. -/
theorem Inner.drop (free : ∀ c ∈ digits, c ≠ '\\') (h : Inner (digits ++ rest)) :
    Inner rest := by
  induction digits with
  | nil => exact h
  | cons c digits ih =>
    have ⟨first, others⟩ := List.forall_mem_cons.mp free
    exact ih others (h.tail first)

/-- What may stand in a string may stand there without its first unit. -/
theorem Inner.behind (h : Inner (unit ++ rest)) (first : IsUnit unit bytes) : Inner rest := by
  cases first with
  | plain free => exact h.tail free
  | escape escape =>
    obtain ⟨c, digits, rfl, hex⟩ := escape.cons_digits
    exact h.second.drop fun d mem => free_of_isHexDigit (hex d mem)

theorem Inner.behind_units {units : List (List Char × List UInt8)}
    (row : ∀ u ∈ units, IsUnit u.1 u.2) (h : Inner (units.flatMap (·.1) ++ rest)) :
    Inner rest := by
  induction units with
  | nil => exact h
  | cons u units ih =>
    have ⟨first, row⟩ := List.forall_mem_cons.mp row
    rw [List.flatMap_cons, List.append_assoc] at h
    exact ih row (h.behind first)

/-- A string is stuck at a backslash that has something behind it, if anywhere. -/
theorem Inner.stuck (h : Inner inner) (stuck : StuckAt inner rest) :
    ∃ c more, rest = '\\' :: c :: more := by
  obtain ⟨⟨units, row, rfl⟩, present, no_unit⟩ := stuck
  cases h.behind_units row with
  | nil => exact absurd rfl present
  | plain free more => exact absurd rfl (no_unit _ _ _ (.plain free.2))
  | escape more => exact ⟨_, _, rfl⟩

/-- Escaped characters may stand in a string. -/
theorem inner_escaped : Inner (text.flatMap escaped) := by
  induction text with
  | nil => exact .nil
  | cons c text ih =>
    rw [List.flatMap_cons, escaped]
    split
    next => exact .escape ih
    next plain => exact .plain (not_or.mp plain) ih

theorem isWord_quoted (text : String) : IsWord .string (quoted text).toList := by
  rw [quoted, String.toList_ofList]
  exact .string inner_escaped

theorem IsWord.exists_inner (h : IsWord .string text) :
    ∃ inner, text = '"' :: (inner ++ ['"']) ∧ Inner inner := by
  cases h with
  | @string inner good => exact ⟨inner, rfl, good⟩
  | spelled some => exact absurd rfl some

end Lexicon

/-- A quoted text is scanned as one string from the start of the source to its end. -/
theorem scan_quoted (source : Source) (text : String)
    (code : source.code = Utf8.ofString (quoted text)) :
    let stop := Position.start.after (quoted text).toList
    (scan source).errors = [] ∧
      (scan source).tokens = [⟨.string, quoted text, .start, stop⟩, .eofAt stop] ∧
      stop.offset = source.code.length := by
  intro stop
  have read : Utf8.readable source.code = ((quoted text).toList, none) := by
    rw [code, Utf8.ofString, Utf8.readable_encode]
  have is_word := Lexicon.isWord_quoted text
  have whole := @Lexeme.read_word_append none _ _ [] is_word (by decide) Lexeme.opensIn_nil
  obtain ⟨errors, tokens⟩ := @Scan.onward_word source.name .start .string [] (quoted text).toList []
    (by simp) is_word whole
  simp only [List.nil_append, List.append_nil, Position.after_nil] at errors tokens
  constructor
  · simp only [scan, Scan.run, read, errors, Scan.onward_nil]
  constructor
  · simp only [scan, Scan.run, read, tokens, Scan.onward_nil, String.ofList_toList, stop]
  · rw [Position.offset_after, code]
    exact Nat.zero_add _

open Literal in
/-- A text in quotes is scanned as one string and nothing else, and read back as the text. And a
string of any source has its quotes, and its escapes have something behind their backslash: what
makes it no literal is an escape that the language does not have. -/
theorem quoted_strings_read_back :
    (∀ (source : Source) (text : String), source.code = Utf8.ofString (quoted text) →
      let stop := Position.start.after (quoted text).toList
      (scan source).errors = [] ∧
        (scan source).tokens = [⟨.string, quoted text, .start, stop⟩, .eofAt stop] ∧
        stop.offset = source.code.length ∧
        unquote (quoted text).toList = .ok text) ∧
    ∀ (source : Source) (t : Token), t ∈ (scan source).tokens → t.kind = .string →
      ∃ inner, t.text.toList = '"' :: (inner ++ ['"']) ∧
        (∀ problem, unquote t.text.toList = .error problem ↔
          problem = .invalidSyntax ∧ ∃ rest, StuckAt inner rest) ∧
        ∀ rest, StuckAt inner rest → ∃ c more, rest = '\\' :: c :: more := by
  constructor
  · intro source text code stop
    obtain ⟨errors, tokens, size⟩ := scan_quoted source text code
    exact ⟨errors, tokens, size, unquote_quoted text⟩
  · intro source t emitted string
    have is_word : Lexicon.IsWord t.kind t.text.toList :=
      ((Scan.scan_emitted source).1 t emitted).isWord (by rw [string]; rfl)
    rw [string] at is_word
    obtain ⟨inner, text, good⟩ := is_word.exists_inner
    refine ⟨inner, text, fun problem => ?_, fun rest => good.stuck⟩
    rw [← unescape?_eq_none_iff, unquote, inner?_eq_some_iff.mpr text, Option.bind_some]
    cases unescape? inner <;> simp [eq_comm]

end Frontend
