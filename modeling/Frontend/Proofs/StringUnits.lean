import Mathlib.Data.List.Basic
import Frontend.Proofs.Decoding
import Frontend.Proofs.Numerals

/-!
The inner part of a string literal is a row of units, each of which stands for bytes. A unit is a
character other than a backslash, or a backslash with what makes an escape of it. No unit is the
beginning of another one, so a text is a row of units in one way at most; a literal has a value
exactly if its inner part is such a row.
-/
namespace Frontend.Literal

open Lexeme

/-- What a backslash makes of a single character behind it. -/
def namedEscapes : List (Char × Char) :=
  [('a', '\x07'), ('b', '\x08'), ('f', '\x0c'), ('n', '\n'), ('r', '\r'), ('t', '\t'),
    ('v', '\x0b'), ('\\', '\\'), ('"', '"')]

/-- What makes an escape of a backslash in front, and the bytes that the escape stands for. -/
inductive Escape : List Char → List UInt8 → Prop
  | named {c value : Char} (listed : (c, value) ∈ namedEscapes) :
      Escape [c] (String.utf8EncodeChar value)
  | octal {digits : List Char} (three : digits.length = 3)
      (octal : ∀ c ∈ digits, '0' ≤ c ∧ c ≤ '7') (byte : numeral 8 digits ≤ 255) :
      Escape digits [UInt8.ofNat (numeral 8 digits)]
  | byte {digits : List Char} (two : digits.length = 2) (hex : ∀ c ∈ digits, isHexDigit c = true) :
      Escape ('x' :: digits) [UInt8.ofNat (numeral 16 digits)]
  | codePoint {mark : Char} {digits : List Char}
      (size : mark = 'u' ∧ digits.length = 4 ∨ mark = 'U' ∧ digits.length = 8)
      (hex : ∀ c ∈ digits, isHexDigit c = true) (scalar : (numeral 16 digits).isValidChar) :
      Escape (mark :: digits) (String.utf8EncodeChar (Char.ofNat (numeral 16 digits)))

/-- A unit of a string literal, and the bytes that it stands for. -/
inductive IsUnit : List Char → List UInt8 → Prop
  | plain {c : Char} (free : c ≠ '\\') : IsUnit [c] (String.utf8EncodeChar c)
  | escape {tail : List Char} {bytes : List UInt8} (escape : Escape tail bytes) :
      IsUnit ('\\' :: tail) bytes

/-- A text is a row of units, each of them with its bytes. -/
def Splits (text : List Char) (units : List (List Char × List UInt8)) : Prop :=
  (∀ u ∈ units, IsUnit u.1 u.2) ∧ text = units.flatMap (·.1)

variable {text more unit digits : List Char} {bytes : List UInt8} {base size n : Nat} {c : Char}

section Digits

/-- Digits of a fixed number are read for what they write. -/
theorem foldlM_digit? {acc : Nat} :
    digits.foldlM (fun n c => (digit? base c).map (n * base + ·)) acc = some n ↔
      (∀ c ∈ digits, digit? base c = some (digitValue c)) ∧
        acc * base ^ digits.length + numeral base digits = n := by
  induction digits generalizing acc with
  | nil => simp
  | cons c digits ih =>
    rw [List.foldlM_cons, numeral_shift]
    cases first : digit? base c with
    | none => simp [first]
    | some d =>
      obtain ⟨-, rfl, -⟩ := digit?_eq_some_iff.mp first
      simp [first, ih]

theorem ofDigits?_eq_some_iff :
    ofDigits? base digits = some n ↔
      (∀ c ∈ digits, digit? base c = some (digitValue c)) ∧ numeral base digits = n := by
  simp [ofDigits?, foldlM_digit?]

theorem fixedDigits?_append (all : ∀ c ∈ digits, digit? base c = some (digitValue c))
    (more : List Char) :
    fixedDigits? base digits.length (digits ++ more) = some (numeral base digits) := by
  simp [fixedDigits?, ofDigits?_eq_some_iff.mpr ⟨all, rfl⟩]

theorem digits_of_fixedDigits? (read : fixedDigits? base size text = some n) :
    ∃ digits more, text = digits ++ more ∧ digits.length = size ∧
      (∀ c ∈ digits, digit? base c = some (digitValue c)) ∧ numeral base digits = n := by
  simp only [fixedDigits?] at read
  split at read
  next whole =>
    obtain ⟨all, value⟩ := ofDigits?_eq_some_iff.mp read
    exact ⟨text.take size, text.drop size, by simp, whole, all, value⟩
  next => cases read

theorem digit?_octal : digit? 8 c = some (digitValue c) ↔ '0' ≤ c ∧ c ≤ '7' := by
  constructor
  · intro read
    obtain ⟨hex, -, small⟩ := digit?_eq_some_iff.mp read
    exact forall_hexDigit (P := fun c => digitValue c < 8 → '0' ≤ c ∧ c ≤ '7') hex
      (by decide) (by decide) (by decide) small
  · rintro ⟨low, high⟩
    exact forall_between (P := fun c => digit? 8 c = some (digitValue c)) low high (by decide)

theorem digit?_hex : digit? 16 c = some (digitValue c) ↔ isHexDigit c = true := by
  constructor
  · intro read
    exact (digit?_eq_some_iff.mp read).1
  · exact digit?_of_isHexDigit

end Digits

section Escapes

theorem codePoint?_eq_some_iff : codePoint? n = some bytes ↔
    n.isValidChar ∧ bytes = String.utf8EncodeChar (Char.ofNat n) := by
  unfold codePoint?
  split
  next scalar => simp [scalar, eq_comm]
  next surrogate => simp [surrogate]

theorem simpleEscape?_named {value : Char} (listed : (c, value) ∈ namedEscapes) :
    (simpleEscape? c).map ([·]) = some (String.utf8EncodeChar value) := by
  have table : ∀ entry ∈ namedEscapes,
      (simpleEscape? entry.1).map ([·]) = some (String.utf8EncodeChar entry.2) := by decide
  exact table _ listed

theorem simpleEscape?_eq_some_iff {b : UInt8} :
    simpleEscape? c = some b ↔ ∃ value, (c, value) ∈ namedEscapes ∧
      String.utf8EncodeChar value = [b] := by
  constructor
  · intro named
    unfold simpleEscape? at named
    split at named <;> cases named
    · exact ⟨'\x07', by decide, rfl⟩
    · exact ⟨'\x08', by decide, rfl⟩
    · exact ⟨'\x0c', by decide, rfl⟩
    · exact ⟨'\n', by decide, rfl⟩
    · exact ⟨'\r', by decide, rfl⟩
    · exact ⟨'\t', by decide, rfl⟩
    · exact ⟨'\x0b', by decide, rfl⟩
    · exact ⟨'\\', by decide, rfl⟩
    · exact ⟨'"', by decide, rfl⟩
  · rintro ⟨value, listed, bytes⟩
    obtain ⟨b', found, same⟩ := Option.map_eq_some_iff.mp (bytes ▸ simpleEscape?_named listed)
    rw [found, List.singleton_inj.mp same]

/-- Digits to the base 8 name no escapes, and the marks of the other escapes are no such digits. -/
theorem simpleEscape?_octal (octal : '0' ≤ c ∧ c ≤ '7') : simpleEscape? c = none :=
  forall_between (P := fun c => simpleEscape? c = none) octal.1 octal.2 (by decide)

theorem digit?_marks : digit? 8 'x' = none ∧ digit? 8 'u' = none ∧ digit? 8 'U' = none := by
  decide

/-- An escape is read whole, whatever follows it. -/
theorem escape?_append (escape : Escape unit bytes) (more : List Char) :
    escape? (unit ++ more) = some (bytes, unit.length) := by
  cases escape with
  | @named c value listed =>
    obtain ⟨b, found, same⟩ := Option.map_eq_some_iff.mp (simpleEscape?_named listed)
    simp [escape?, found, ← same]
  | octal three octal byte =>
    have all : ∀ c ∈ unit, digit? 8 c = some (digitValue c) :=
      fun c mem => digit?_octal.mpr (octal c mem)
    have read := fixedDigits?_append all more
    rw [three] at read ⊢
    cases unit with
    | nil => cases three
    | cons d rest =>
      have first := simpleEscape?_octal (octal d (.head _))
      have digit := all d (.head _)
      rw [List.cons_append] at read ⊢
      simp [escape?, first, digit, read, Nat.lt_succ_of_le byte, -numeral_cons]
  | @byte digits two hex =>
    have all : ∀ c ∈ digits, digit? 16 c = some (digitValue c) :=
      fun c mem => digit?_hex.mpr (hex c mem)
    have read := fixedDigits?_append all more
    rw [two] at read
    simp [escape?, simpleEscape?, digit?_marks, read, two]
  | @codePoint mark digits size hex scalar =>
    have all : ∀ c ∈ digits, digit? 16 c = some (digitValue c) :=
      fun c mem => digit?_hex.mpr (hex c mem)
    have read := fixedDigits?_append all more
    obtain ⟨rfl, size⟩ | ⟨rfl, size⟩ := size
    · rw [size] at read
      simp [escape?, simpleEscape?, digit?_marks, read, size, codePoint?, scalar]
    · rw [size] at read
      simp [escape?, simpleEscape?, digit?_marks, read, size, codePoint?, scalar]

/-- Digits that name a code point make an escape of its mark. -/
theorem escape_of_codePoint? {mark : Char}
    (marks : mark = 'u' ∧ size = 4 ∨ mark = 'U' ∧ size = 8)
    (number : fixedDigits? 16 size text = some n) (character : codePoint? n = some bytes) :
    ∃ digits more, text = digits ++ more ∧ digits.length = size ∧
      Escape (mark :: digits) bytes := by
  obtain ⟨digits, more, rfl, rfl, all, rfl⟩ := digits_of_fixedDigits? number
  obtain ⟨scalar, rfl⟩ := codePoint?_eq_some_iff.mp character
  exact ⟨digits, more, rfl, rfl, .codePoint marks (fun c mem => digit?_hex.mp (all c mem)) scalar⟩

/-- What is read as an escape is one. -/
theorem escape_of_escape? (read : escape? text = some (bytes, n)) :
    ∃ unit more, text = unit ++ more ∧ unit.length = n ∧ Escape unit bytes := by
  obtain ⟨c, head, read⟩ := Option.bind_eq_some_iff.mp read
  obtain ⟨rest, rfl⟩ := List.head?_eq_some_iff.mp head
  cases named : simpleEscape? c with
  | some b =>
    rw [named] at read
    cases read
    obtain ⟨value, listed, bytes⟩ := simpleEscape?_eq_some_iff.mp named
    exact ⟨[c], rest, rfl, rfl, bytes ▸ .named listed⟩
  | none =>
    rw [named] at read
    dsimp only at read
    split_ifs at read with octal byte short long
    · obtain ⟨value, number, read⟩ := Option.bind_eq_some_iff.mp read
      obtain ⟨digits, more, text, three, all, rfl⟩ := digits_of_fixedDigits? number
      obtain ⟨small, rfl, rfl⟩ : numeral 8 digits < 256 ∧ _ = bytes ∧ 3 = n := by simpa using read
      exact ⟨digits, more, text, three, .octal three (fun c mem => digit?_octal.mp (all c mem))
        (Nat.le_of_lt_succ small)⟩
    · obtain ⟨value, number, read⟩ := Option.bind_eq_some_iff.mp read
      obtain ⟨digits, more, rfl, two, all, rfl⟩ := digits_of_fixedDigits? number
      cases read
      exact ⟨'x' :: digits, more, by simp [byte], by simp [two],
        .byte two fun c mem => digit?_hex.mp (all c mem)⟩
    · obtain ⟨value, number, read⟩ := Option.bind_eq_some_iff.mp read
      obtain ⟨bytes, character, done⟩ := Option.bind_eq_some_iff.mp read
      cases done
      obtain ⟨digits, more, rfl, four, escape⟩ := escape_of_codePoint? (.inl ⟨rfl, rfl⟩) number
        character
      exact ⟨'u' :: digits, more, by simp [short], by simp [four], escape⟩
    · obtain ⟨value, number, read⟩ := Option.bind_eq_some_iff.mp read
      obtain ⟨bytes, character, done⟩ := Option.bind_eq_some_iff.mp read
      cases done
      obtain ⟨digits, more, rfl, eight, escape⟩ := escape_of_codePoint? (.inr ⟨rfl, rfl⟩) number
        character
      exact ⟨'U' :: digits, more, by simp [long], by simp [eight], escape⟩

end Escapes

section Units

variable {inner : List Char} {units units' : List (List Char × List UInt8)}
  {unit' : List Char} {bytes' : List UInt8}

/-- A unit in front of a text puts its bytes in front of those of the text. -/
theorem unescape?_append (first : IsUnit unit bytes) :
    unescape? (unit ++ text) = (unescape? text).map (bytes ++ ·) := by
  cases first with
  | plain free =>
    rw [List.singleton_append, unescape?, if_neg free]
    simp
  | escape escape =>
    rw [List.cons_append, unescape?, if_pos rfl, escape?_append escape]
    cases others : unescape? text <;> simp [others]

/-- A text that stands for bytes is empty or begins with a unit. -/
theorem unit_of_unescape? {c : Char} (read : unescape? (c :: text) = some bytes) :
    ∃ unit first rest, c :: text = unit ++ rest ∧ IsUnit unit first := by
  rw [unescape?] at read
  split at read
  next backslash =>
    obtain ⟨⟨first, n⟩, escaped, -⟩ := Option.bind_eq_some_iff.mp read
    obtain ⟨unit, more, rfl, -, escape⟩ := escape_of_escape? escaped
    exact ⟨'\\' :: unit, first, more, by simp [backslash], .escape escape⟩
  next free => exact ⟨[c], _, text, rfl, .plain free⟩

theorem IsUnit.ne_nil (h : IsUnit unit bytes) : unit ≠ [] := by
  cases h <;> simp

/-- Units are read off a text as far as there are any. -/
theorem exists_units (text : List Char) : ∃ (units : List (List Char × List UInt8))
    (rest : List Char),
    (∀ u ∈ units, IsUnit u.1 u.2) ∧ text = units.flatMap (·.1) ++ rest ∧
      ∀ unit bytes more, IsUnit unit bytes → rest ≠ unit ++ more := by
  -- The induction is on the length, since a unit may be longer than one character.
  induction size : text.length using Nat.strong_induction_on generalizing text with
  | h n ih =>
    by_cases head : ∃ unit bytes more, IsUnit unit bytes ∧ text = unit ++ more
    · obtain ⟨unit, bytes, more, first, rfl⟩ := head
      have shorter : more.length < n := by
        have present := List.length_pos_iff.mpr first.ne_nil
        rw [← size, List.length_append]
        omega
      obtain ⟨units, rest, row, rfl, stuck⟩ := ih _ shorter more rfl
      exact ⟨(unit, bytes) :: units, rest, List.forall_mem_cons.mpr ⟨first, row⟩, by simp, stuck⟩
    · exact ⟨[], text, by simp, rfl, fun unit bytes more first here =>
        head ⟨unit, bytes, more, first, here⟩⟩

/-- The bytes of a row of units stand in front of those of the rest. -/
theorem unescape?_units (row : ∀ u ∈ units, IsUnit u.1 u.2) :
    unescape? (units.flatMap (·.1) ++ text) =
      (unescape? text).map (units.flatMap (·.2) ++ ·) := by
  induction units with
  | nil => simp
  | cons u units ih =>
    have ⟨first, rest⟩ := List.forall_mem_cons.mp row
    rw [List.flatMap_cons, List.append_assoc, unescape?_append first, ih rest]
    cases unescape? text <;> simp

@[simp] theorem unescape?_nil : unescape? [] = some [] := by
  rw [unescape?]

/-- A text stands for no bytes if it does not begin with a unit. -/
theorem unescape?_eq_none (present : text ≠ [])
    (stuck : ∀ unit bytes more, IsUnit unit bytes → text ≠ unit ++ more) :
    unescape? text = none := by
  obtain ⟨c, rest, rfl⟩ := List.exists_cons_of_ne_nil present
  by_contra read
  obtain ⟨bytes, read⟩ := Option.ne_none_iff_exists'.mp read
  obtain ⟨unit, first, more, here, is_unit⟩ := unit_of_unescape? read
  exact stuck unit first more is_unit here

/-- A text stands for bytes exactly if it is a row of units. -/
theorem unescape?_eq_some_iff : unescape? inner = some bytes ↔
    ∃ units, Splits inner units ∧ bytes = units.flatMap (·.2) := by
  constructor
  · intro read
    obtain ⟨units, rest, row, rfl, stuck⟩ := exists_units inner
    rw [unescape?_units row] at read
    by_cases ended : rest = []
    · subst ended
      exact ⟨units, ⟨row, List.append_nil _⟩, by simpa using read.symm⟩
    · rw [unescape?_eq_none ended stuck] at read
      cases read
  · rintro ⟨units, ⟨row, rfl⟩, rfl⟩
    have read : unescape? (units.flatMap (·.1) ++ []) = _ := unescape?_units row
    simpa using read

/-- Two units that the same text begins with are one. -/
theorem IsUnit.unique (h : IsUnit unit bytes) (h' : IsUnit unit' bytes')
    (same : unit ++ text = unit' ++ more) : unit = unit' ∧ bytes = bytes' ∧ text = more := by
  cases h with
  | plain free =>
    cases h' with
    | plain _ =>
      obtain ⟨rfl, rfl⟩ := List.cons_eq_cons.mp same
      exact ⟨rfl, rfl, rfl⟩
    | escape _ => exact absurd (List.cons_eq_cons.mp same).1 free
  | @escape tail _ escape =>
    cases h' with
    | plain free => exact absurd (List.cons_eq_cons.mp same).1.symm free
    | @escape tail' _ escape' =>
      -- Reading an escape tells how long it is whatever follows, so both take as much.
      have tails : tail ++ text = tail' ++ more := (List.cons_eq_cons.mp same).2
      have read := escape?_append escape text
      rw [tails, escape?_append escape'] at read
      obtain ⟨rfl, sizes⟩ : bytes' = bytes ∧ tail'.length = tail.length := by simpa using read
      obtain ⟨rfl, rfl⟩ := List.append_inj tails sizes.symm
      exact ⟨rfl, rfl, rfl⟩

/-- A text is a row of units in one way. -/
theorem Splits.unique (h : Splits text units) (h' : Splits text units') : units = units' := by
  induction units generalizing text units' with
  | nil =>
    cases units' with
    | nil => rfl
    | cons u' units' =>
      have empty : u'.1 ++ units'.flatMap (·.1) = [] := h'.2.symm.trans h.2
      exact absurd (List.append_eq_nil_iff.mp empty).1 (h'.1 _ (.head _)).ne_nil
  | cons u units ih =>
    cases units' with
    | nil =>
      have empty : u.1 ++ units.flatMap (·.1) = [] := h.2.symm.trans h'.2
      exact absurd (List.append_eq_nil_iff.mp empty).1 (h.1 _ (.head _)).ne_nil
    | cons u' units' =>
      have ⟨first, row⟩ := List.forall_mem_cons.mp h.1
      have ⟨first', row'⟩ := List.forall_mem_cons.mp h'.1
      obtain ⟨unit, bytes, rest⟩ := first.unique first' (h.2.symm.trans h'.2)
      rw [Prod.ext unit bytes, ih ⟨row, rfl⟩ ⟨row', rest⟩]

/-- A quoted text is a quote, its inner part and a quote. -/
theorem inner?_eq_some_iff : inner? text = some inner ↔ text = '"' :: (inner ++ ['"']) := by
  constructor
  · intro found
    unfold inner? at found
    split at found
    next rest =>
      split at found
      next last =>
        cases found
        rw [List.dropLast_append_getLast? _ last]
      next => cases found
    next => cases found
  · rintro rfl
    simp [inner?]

end Units

/-- A string literal has a value exactly if it is a row of units between quotes, which are units in
one way; and the value is what the bytes of the units decode to. Any other text is no literal. -/
theorem unquote_exact (text : List Char) :
    (∀ value, unquote text = .ok value ↔ ∃ inner units, text = '"' :: (inner ++ ['"']) ∧
      Splits inner units ∧ value = Utf8.toStringLossy (units.flatMap (·.2))) ∧
    (∀ inner units units', Splits inner units → Splits inner units' → units = units') ∧
    ∀ problem, unquote text = .error problem → problem = .invalidSyntax := by
  have outcome : ∀ bytes, (inner? text).bind unescape? = some bytes ↔
      ∃ inner units, text = '"' :: (inner ++ ['"']) ∧ Splits inner units ∧
        bytes = units.flatMap (·.2) := by
    intro bytes
    simp only [Option.bind_eq_some_iff, inner?_eq_some_iff, unescape?_eq_some_iff,
      exists_and_left]
  refine ⟨?_, fun _ _ _ => Splits.unique, ?_⟩
  · intro value
    unfold unquote
    constructor
    · intro read
      split at read
      next bytes found =>
        cases read
        obtain ⟨inner, units, quoted, splits, rfl⟩ := (outcome bytes).mp found
        exact ⟨inner, units, quoted, splits, rfl⟩
      next => cases read
    · rintro ⟨inner, units, quoted, splits, rfl⟩
      rw [(outcome _).mpr ⟨inner, units, quoted, splits, rfl⟩]
  · intro problem failed
    unfold unquote at failed
    split at failed
    · cases failed
    · exact (Except.error.inj failed).symm

/-- The bytes of two units may be those of one character. -/
theorem unquote_exact_bytes :
    unquote ['"', '\\', '3', '0', '3', '\\', 'x', 'a', '4', '"'] = .ok "ä" := by
  have octal : Escape ['3', '0', '3'] [0xc3] :=
    .octal rfl (by simp) (by decide)
  have byte : Escape ['x', 'a', '4'] [0xa4] :=
    .byte rfl (by simp [isHexDigit])
  have character : "ä" = Utf8.toStringLossy [0xc3, 0xa4] := by
    have encoded : [0xc3, 0xa4] = Utf8.encode ['ä'] := by decide
    rw [encoded, Utf8.toStringLossy, Utf8.decodeLossy_encode]
  exact ((unquote_exact _).1 "ä").mpr
    ⟨_, [(['\\', '3', '0', '3'], [0xc3]), (['\\', 'x', 'a', '4'], [0xa4])], rfl,
      ⟨by simpa using ⟨.escape octal, .escape byte⟩, rfl⟩, character⟩

end Frontend.Literal
