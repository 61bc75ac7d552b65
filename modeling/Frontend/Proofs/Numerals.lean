import Mathlib.Data.Nat.Digits.Defs
import Frontend.Grammar.Full
import Frontend.Proofs.LongestWords
import Frontend.Proofs.Yields

/-!
What numbers are written with digits. `numeral` counts digits by their places, however many there
are; a whole number of a source has digits to one of three bases, and it is read as the number that
they write as long as that fits. An expression and a pattern say the same of it.
-/
namespace Frontend

namespace Literal

open Lexeme Lexicon

/-- The digits of all bases, each at the place that it counts. -/
def digitSigns : List Char :=
  ['0', '1', '2', '3', '4', '5', '6', '7', '8', '9', 'a', 'b', 'c', 'd', 'e', 'f']

/-- What a digit counts. Letters may be of either case. -/
def digitValue (c : Char) : Nat := digitSigns.idxOf c.toLower

/-- The number that some digits write, the last one being that of the units. -/
def numeral (base : Nat) (digits : List Char) : Nat :=
  Nat.ofDigits base (digits.reverse.map digitValue)

section Digits

variable {c : Char} {base d : Nat} {digits : List Char}

@[simp] theorem numeral_nil : numeral base [] = 0 := rfl

@[simp] theorem numeral_cons :
    numeral base (c :: digits) = digitValue c * base ^ digits.length + numeral base digits := by
  simp [numeral, Nat.ofDigits_append, Nat.ofDigits_singleton, Nat.mul_comm, Nat.add_comm]

/-- One more digit behind a number shifts the number by a place. -/
theorem numeral_shift {acc : Nat} :
    acc * base ^ (c :: digits).length + numeral base (c :: digits) =
      (acc * base + digitValue c) * base ^ digits.length + numeral base digits := by
  simp only [List.length_cons, numeral_cons]
  ring

/-- What holds of all characters between two others can be looked up. -/
theorem forall_between {P : Char → Prop} {low high : Char} (from_ : low ≤ c) (upto : c ≤ high)
    (each : ∀ n ∈ List.range' low.toNat (high.toNat + 1 - low.toNat), P (Char.ofNat n)) : P c := by
  have low_le : low.toNat ≤ c.toNat := from_
  have le_high : c.toNat ≤ high.toNat := upto
  have here := each c.toNat (List.mem_range'_1.mpr ⟨low_le, by omega⟩)
  rwa [Char.ofNat_toNat] at here

/-- The characters that are digits to the base 16. -/
theorem isHexDigit_iff : isHexDigit c = true ↔
    ('0' ≤ c ∧ c ≤ '9') ∨ ('a' ≤ c ∧ c ≤ 'f') ∨ ('A' ≤ c ∧ c ≤ 'F') := by
  simp [isHexDigit, Char.isDigit, or_assoc, Char.le_def]

/-- A property of digits to the base 16 can be looked up. -/
theorem forall_hexDigit {P : Char → Prop} (hex : isHexDigit c = true)
    (small : ∀ n ∈ List.range' 48 10, P (Char.ofNat n))
    (lower : ∀ n ∈ List.range' 97 6, P (Char.ofNat n))
    (upper : ∀ n ∈ List.range' 65 6, P (Char.ofNat n)) : P c := by
  obtain ⟨low, high⟩ | ⟨low, high⟩ | ⟨low, high⟩ := isHexDigit_iff.mp hex
  · exact forall_between low high small
  · exact forall_between low high lower
  · exact forall_between low high upper

theorem digit?_hexDigit (hex : isHexDigit c = true) :
    digit? base c = if digitValue c < base then some (digitValue c) else none := by
  have wide : digit? 16 c = some (digitValue c) :=
    forall_hexDigit (P := fun c => digit? 16 c = some (digitValue c)) hex
      (by decide) (by decide) (by decide)
  have known : c.isDigit = true ∨ ('a' ≤ c ∧ c ≤ 'f') ∨ ('A' ≤ c ∧ c ≤ 'F') := by
    simpa [isHexDigit, or_assoc] using hex
  unfold digit? at wide ⊢
  split_ifs at wide ⊢ <;> simp_all

theorem digit?_other (other : isHexDigit c = false) : digit? base c = none := by
  simp only [isHexDigit, Bool.or_eq_false_iff, Bool.and_eq_false_iff, decide_eq_false_iff_not,
    ← not_and_or] at other
  simp [digit?, other]

/-- The digits of a base are those to the base 16 that count less than the base. -/
theorem digit?_eq_some_iff :
    digit? base c = some d ↔ isHexDigit c = true ∧ digitValue c = d ∧ d < base := by
  by_cases hex : isHexDigit c = true
  · rw [digit?_hexDigit hex]
    by_cases less : digitValue c < base
    · simp only [if_pos less, Option.some.injEq, hex, true_and]
      constructor
      · rintro rfl
        exact ⟨rfl, less⟩
      · exact fun ⟨same, _⟩ => same
    · simp only [if_neg less, reduceCtorEq, false_iff]
      rintro ⟨_, rfl, small⟩
      exact less small
  · simp [digit?_other (Bool.eq_false_iff.mpr hex), hex]

theorem digit?_of_isDigit (decimal : c.isDigit = true) : digit? 10 c = some (digitValue c) := by
  obtain ⟨low, high⟩ : '0' ≤ c ∧ c ≤ '9' := by simpa [Char.isDigit, Char.le_def] using decimal
  exact forall_between (P := fun c => digit? 10 c = some (digitValue c)) low high (by decide)

theorem digit?_of_isHexDigit (hex : isHexDigit c = true) : digit? 16 c = some (digitValue c) :=
  forall_hexDigit (P := fun c => digit? 16 c = some (digitValue c)) hex
    (by decide) (by decide) (by decide)

theorem digit?_of_isBinaryDigit (binary : isBinaryDigit c = true) :
    digit? 2 c = some (digitValue c) := by
  obtain rfl | rfl : c = '0' ∨ c = '1' := by simpa [isBinaryDigit] using binary
  all_goals decide

/-- A number of 64 bits with one more digit behind it. -/
def appendDigit (base n : Nat) (c : Char) : Except Problem Nat :=
  match digit? base c with
  | none => .error .invalidSyntax
  | some d => if n * base + d < naturalLimit then .ok (n * base + d) else .error .outOfRange

/-- Digits are read from the front, and what they come to never gets smaller; so a number that is
beyond the limit in the end is refused, wherever it gets there. -/
theorem foldlM_appendDigit (acc : Nat) (inside : acc < naturalLimit) (positive : 0 < base)
    (good : ∀ c ∈ digits, digit? base c = some (digitValue c)) :
    digits.foldlM (appendDigit base) acc =
      if acc * base ^ digits.length + numeral base digits < naturalLimit then
        .ok (acc * base ^ digits.length + numeral base digits)
      else .error .outOfRange := by
  induction digits generalizing acc with
  | nil => simp [inside, pure, Except.pure]
  | cons c digits ih =>
    have ⟨first, rest⟩ := List.forall_mem_cons.mp good
    rw [List.foldlM_cons, appendDigit, first, numeral_shift]
    dsimp only
    by_cases fits : acc * base + digitValue c < naturalLimit
    · rw [if_pos fits]
      exact ih _ fits rest
    · have grows : acc * base + digitValue c ≤
          (acc * base + digitValue c) * base ^ digits.length :=
        Nat.le_mul_of_pos_right _ (Nat.pow_pos positive)
      rw [if_neg fits, if_neg (by omega)]
      rfl

/-- A number of 64 bits is what its digits write, if that is one. -/
theorem boundedDigits_eq (positive : 0 < base) (present : digits ≠ [])
    (good : ∀ c ∈ digits, digit? base c = some (digitValue c)) :
    boundedDigits base digits =
      if numeral base digits < naturalLimit then .ok (numeral base digits)
      else .error .outOfRange := by
  have read := foldlM_appendDigit 0 (show 0 < 2 ^ 64 by decide) positive good
  simp only [Nat.zero_mul, Nat.zero_add] at read
  rw [boundedDigits, if_neg (by simpa using present)]
  exact read

end Digits

/-- The base of a whole number and its digits. The mark in front of them says the base. -/
def radix : List Char → Nat × List Char
  | '0' :: 'x' :: digits | '0' :: 'X' :: digits => (16, digits)
  | '0' :: 'b' :: digits | '0' :: 'B' :: digits => (2, digits)
  | digits => (10, digits)

/-- The number that a whole number of a source is. -/
def magnitude (word : List Char) : Nat := numeral (radix word).1 (radix word).2

theorem natural_radix (word : List Char) :
    natural word = boundedDigits (radix word).1 (radix word).2 := by
  fun_cases radix word <;> simp_all [natural]

/-- The digits of a whole number are digits of its base. -/
theorem radix_of_whole {word : List Char} (whole : Whole word) :
    0 < (radix word).1 ∧ (radix word).2 ≠ [] ∧
      ∀ c ∈ (radix word).2, digit? (radix word).1 c = some (digitValue c) := by
  cases whole with
  | decimal present =>
    have unmarked : radix word = (10, word) := by
      have digits := present.2
      fun_cases radix word <;> simp_all
    rw [unmarked]
    exact ⟨Nat.succ_pos _, present.1, fun c mem => digit?_of_isDigit (present.2 c mem)⟩
  | hex marked present =>
    obtain rfl | rfl := marked <;>
      exact ⟨Nat.succ_pos _, present.1, fun c mem => digit?_of_isHexDigit (present.2 c mem)⟩
  | binary marked present =>
    obtain rfl | rfl := marked <;>
      exact ⟨Nat.succ_pos _, present.1, fun c mem => digit?_of_isBinaryDigit (present.2 c mem)⟩

/-- A whole number is what its digits write, if that has 64 bits. -/
theorem natural_eq {word : List Char} (whole : Whole word) :
    natural word =
      if magnitude word < naturalLimit then .ok (magnitude word) else .error .outOfRange := by
  obtain ⟨positive, present, good⟩ := radix_of_whole whole
  rw [natural_radix]
  exact boundedDigits_eq positive present good

/-- The largest magnitude of an integer with a sign, or without one. -/
def integerLimit (negative : Bool) : Nat := if negative then 2 ^ 63 else 2 ^ 63 - 1

/-- Integers go one further below zero than above it. -/
theorem integer_eq {word : List Char} (whole : Whole word) (negative : Bool) :
    integer negative word =
      if magnitude word ≤ integerLimit negative then
        .ok (if negative then -(magnitude word : Int) else magnitude word)
      else .error .outOfRange := by
  rw [integer, natural_eq whole]
  by_cases fits : magnitude word < naturalLimit
  · rw [if_pos fits]
    cases negative with
    | true => rfl
    | false =>
      have same : magnitude word < Nat.pow 2 63 ↔ magnitude word ≤ 2 ^ 63 - 1 := by
        show magnitude word < 2 ^ 63 ↔ _
        omega
      simp [same, integerLimit, Bind.bind, Except.bind]
  · have large : ¬ magnitude word ≤ integerLimit negative := by
      have beyond : 2 ^ 64 ≤ magnitude word := Nat.not_lt.mp fits
      unfold integerLimit
      split <;> omega
    rw [if_neg fits, if_neg large]
    rfl

/-- The mark behind an unsigned integer is no digit of it. -/
theorem unsigned_eq {word : List Char} (whole : Whole word) :
    unsigned (word ++ ['u']) =
      if magnitude word ≤ 2 ^ 64 - 1 then .ok (magnitude word) else .error .outOfRange := by
  have same : magnitude word < naturalLimit ↔ magnitude word ≤ 2 ^ 64 - 1 := by
    show magnitude word < 2 ^ 64 ↔ _
    omega
  rw [unsigned, if_pos (by simp), List.dropLast_concat, natural_eq whole]
  simp [same]

end Literal

namespace Grammar

open Frontend.Grammar.Parser
open Token (Kind)

/-- What becomes of a literal as an expression, from what is found out about its value. -/
def exprOutcome (t : Token) (minus : Option Position) (found : Except Literal.Problem Literal)
    (c : Cursor) : EStateM.Result Fault Cursor Expr :=
  let span : Span := ⟨minus.getD t.span.start, t.span.stop⟩
  match found with
  | .ok value => .ok ⟨span, value.toExpr⟩ c
  | .error problem => .error (.across span (.badLiteral t.kind minus.isSome t.text problem)) c

/-- What becomes of a literal as a pattern, from what is found out about its value. -/
def patternOutcome (t : Token) (minus : Option Position) (found : Except Literal.Problem Literal)
    (c : Cursor) : EStateM.Result Fault Cursor Pattern :=
  let span : Span := ⟨minus.getD t.span.start, t.span.stop⟩
  match found with
  | .ok value => .ok (value.toPattern span) c
  | .error problem => .error (.across span (.badLiteralPattern t.text problem)) c

section Paths

variable {t minus : Token} {position : Option Position} {rest : List Token} {c : Cursor}

theorem literal_eq :
    literal t position c =
      exprOutcome t position (Literal.read t.kind position.isSome t.text) c := by
  unfold literal exprOutcome
  cases Literal.read t.kind position.isSome t.text <;> rfl

theorem literalPattern_eq :
    literalPattern t position c =
      patternOutcome t position (Literal.read t.kind position.isSome t.text) c := by
  unfold literalPattern patternOutcome
  cases Literal.read t.kind position.isSome t.text <;> rfl

/-- A literal without a sign is the same as an expression and as a pattern. -/
theorem literal_paths (rules : Rules) (ahead : c.upcoming = t :: rest)
    (number : Literal.isKind t.kind = true) :
    let found := Literal.read t.kind false t.text
    (∃ c', primary rules c = exprOutcome t none found c') ∧
      ∃ c', pattern rules c = patternOutcome t none found c' := by
  have here : c.token 0 = t := by simp [Cursor.token, ahead]
  constructor
  · simp [primary, kind_run, bind, EStateM.bind, here, number, next, literal_eq]
  · simp [pattern, kind_run, bind, EStateM.bind, here, number, next, literalPattern_eq]

/-- A literal behind a minus that belongs to it is the same as an expression and as a pattern. -/
theorem negative_literal_paths (rules : Rules) (signed : minus.kind = .minus)
    (ahead : c.upcoming = minus :: t :: rest) (number : t.kind = .int)
    (alone : (c.token 2).kind ∉ [Kind.lparen, .lbracket, .dot]) :
    let found := Literal.read t.kind true t.text
    (∃ c', unary rules c = exprOutcome t (some minus.span.start) found c') ∧
      ∃ c', pattern rules c = patternOutcome t (some minus.span.start) found c' := by
  have first : c.token 0 = minus := by simp [Cursor.token, ahead]
  have second : c.token 1 = t := by simp [Cursor.token, ahead]
  have behind : ∀ mid : Cursor, mid.upcoming = c.upcoming → mid.advance.token 0 = t := by
    intro mid same
    simp [Cursor.token, same, ahead]
  have no_bracket : (c.token 2).kind ≠ .lparen ∧ (c.token 2).kind ≠ .lbracket ∧
      (c.token 2).kind ≠ .dot := by simpa using alone
  constructor
  · simp [unary, negativeLiteralAhead, kind_run, kindAt_run, bind, EStateM.bind, pure, EStateM.pure,
      first, second, signed, number, no_bracket, unaryOp?, next, literal_eq, behind]
  · simp [pattern, negativePattern, kind_run, bind, EStateM.bind, first, signed, number,
      Literal.isKind, next, literalPattern_eq, behind]

end Paths

end Grammar

theorem Lexicon.IsWord.whole {text : List Char} (h : IsWord .int text) : Whole text := by
  cases h with
  | int whole => exact whole
  | spelled some => exact absurd rfl some

theorem Lexicon.IsWord.marked {text : List Char} (h : IsWord .uint text) :
    ∃ word, text = word ++ ['u'] ∧ Whole word := by
  cases h with
  | @uint word whole => exact ⟨word, rfl, whole⟩
  | spelled some => exact absurd rfl some

open Literal Grammar in
/-- The whole numbers of a source are read as the numbers that their digits write, as long as these
have 64 bits, and are out of range otherwise. An expression and a pattern have the same value of
one, or the same fault. -/
theorem whole_numbers_exact (source : Source) (t : Token) (emitted : t ∈ (scan source).tokens) :
    (t.kind = .int →
      let n := magnitude t.text.toList
      Lexicon.Whole t.text.toList ∧
        integer false t.text.toList =
          (if n ≤ 2 ^ 63 - 1 then .ok (n : Int) else .error .outOfRange) ∧
        integer true t.text.toList = if n ≤ 2 ^ 63 then .ok (-(n : Int)) else .error .outOfRange) ∧
    (t.kind = .uint → ∃ word, t.text.toList = word ++ ['u'] ∧ Lexicon.Whole word ∧
      unsigned t.text.toList =
        if magnitude word ≤ 2 ^ 64 - 1 then .ok (magnitude word) else .error .outOfRange) ∧
    ∀ (rules : Rules) (c : Cursor) (rest : List Token),
      (t.kind = .int ∨ t.kind = .uint → c.upcoming = t :: rest →
        let found := Literal.read t.kind false t.text
        (∃ c', primary rules c = exprOutcome t none found c') ∧
          ∃ c', pattern rules c = patternOutcome t none found c') ∧
      ∀ minus : Token, minus.kind = .minus → t.kind = .int → c.upcoming = minus :: t :: rest →
        (c.token 2).kind ∉ [Token.Kind.lparen, .lbracket, .dot] →
        let found := Literal.read t.kind true t.text
        (∃ c', unary rules c = exprOutcome t (some minus.span.start) found c') ∧
          ∃ c', pattern rules c = patternOutcome t (some minus.span.start) found c' := by
  have is_word : t.kind.isTerminal = false → Lexicon.IsWord t.kind t.text.toList :=
    fun going => ((Scan.scan_emitted source).1 t emitted).isWord going
  constructor
  · intro int
    rw [int] at is_word
    have whole := (is_word rfl).whole
    exact ⟨whole, integer_eq whole false, integer_eq whole true⟩
  constructor
  · intro uint
    rw [uint] at is_word
    obtain ⟨word, text, whole⟩ := (is_word rfl).marked
    exact ⟨word, text, whole, by rw [text]; exact unsigned_eq whole⟩
  · intro rules c rest
    constructor
    · intro number ahead
      have number : isKind t.kind = true := by
        obtain int | uint := number <;> simp [isKind, *]
      exact literal_paths rules ahead number
    · intro minus signed int ahead alone
      exact negative_literal_paths rules signed ahead int alone

/-- The integer that only a sign makes fit, with its sign. -/
theorem whole_numbers_exact_lowest :
    let source : Source := .inMemory "a" (Utf8.ofString "-0x8000000000000000")
    let t : Token := ⟨.int, "0x8000000000000000", ⟨1, 1, 2⟩, ⟨19, 1, 20⟩⟩
    t ∈ (scan source).tokens ∧
      Literal.integer false t.text.toList = .error .outOfRange ∧
      Literal.integer true t.text.toList = .ok (-2 ^ 63) ∧
      (∃ c', Grammar.unary Grammar.full (.ofTokens (scan source).tokens) =
        .ok ⟨⟨⟨0, 1, 1⟩, t.span.stop⟩, .int (-2 ^ 63)⟩ c') ∧
      ∃ c', Grammar.pattern Grammar.full (.ofTokens (scan source).tokens) =
        .ok (.int ⟨⟨0, 1, 1⟩, t.span.stop⟩ (-2 ^ 63)) c' := by
  intro source t
  have tokens : (scan source).tokens =
      [⟨.minus, "-", ⟨0, 1, 1⟩, ⟨1, 1, 2⟩⟩, t, .eofAt ⟨19, 1, 20⟩] := by decide +kernel
  have emitted : t ∈ (scan source).tokens := by simp [tokens]
  obtain ⟨numbers, -, paths⟩ := whole_numbers_exact source t emitted
  obtain ⟨-, plain, signed⟩ := numbers rfl
  have size : Literal.magnitude t.text.toList = 2 ^ 63 := by decide +kernel
  rw [size] at plain signed
  obtain ⟨expr, pattern⟩ := (paths Grammar.full (.ofTokens (scan source).tokens) []).2
    ⟨.minus, "-", ⟨0, 1, 1⟩, ⟨1, 1, 2⟩⟩ rfl rfl (by rw [tokens]; rfl) (by rw [tokens]; decide)
  have value : Literal.read t.kind true t.text = .ok (.int (-2 ^ 63)) := by
    show (Literal.integer true t.text.toList).map Literal.int = _
    rw [signed]
    rfl
  rw [value] at expr pattern
  exact ⟨emitted, plain, signed, expr, pattern⟩

end Frontend
