import Frontend.Proofs.Decoding
import Frontend.Proofs.Spelling

/-!
Literals are read as what they are spelled from: numbers in decimal, and texts in quotes with quotes
and backslashes escaped.
-/
namespace Frontend.Literal

theorem digit?_digitChar {d : Nat} (h : d < 10) : digit? 10 d.digitChar = some d := by
  have all : ∀ d < 10, digit? 10 (Nat.digitChar d) = some d := by decide
  exact all d h

/-- The digits of a number lead to the number, and no part of them leads further. -/
theorem foldlM_toDigits (n : Nat) (less : n < naturalLimit) :
    (Nat.toDigits 10 n).foldlM (fun n c => match digit? 10 c with
      | none => Except.error Problem.invalidSyntax
      | some d => if n * 10 + d < naturalLimit then .ok (n * 10 + d) else .error .outOfRange) 0 =
      .ok n := by
  induction n using Nat.strongRecOn with
  | ind n ih =>
    rw [Nat.toDigits_eq_if (by decide)]
    split
    next small => simp [digit?_digitChar small, less]
    next large =>
      have last : digit? 10 (n % 10).digitChar = some (n % 10) := digit?_digitChar (by omega)
      rw [List.foldlM_append, ih (n / 10) (by omega) (by omega)]
      have whole : n / 10 * 10 + n % 10 = n := by omega
      simp [last, whole, less, bind, Except.bind, pure, Except.pure]

theorem boundedDigits_toDigits {n : Nat} (less : n < naturalLimit) :
    boundedDigits 10 (Nat.toDigits 10 n) = .ok n := by
  unfold boundedDigits
  rw [if_neg (by simp)]
  exact foldlM_toDigits n less

/-- Digits never begin like a number to another base. -/
theorem natural_toDigits {n : Nat} (less : n < naturalLimit) :
    natural (Nat.toDigits 10 n) = .ok n := by
  have digits : ∀ c ∈ Nat.toDigits 10 n, c.isDigit = true := fun c mem =>
    Nat.isDigit_of_mem_toDigits (by decide) (by decide) mem
  unfold natural
  split
  next eq => exact absurd (digits 'x' (by simp [eq])) (by decide)
  next eq => exact absurd (digits 'X' (by simp [eq])) (by decide)
  next eq => exact absurd (digits 'b' (by simp [eq])) (by decide)
  next eq => exact absurd (digits 'B' (by simp [eq])) (by decide)
  next => exact boundedDigits_toDigits less

theorem integer_toDigits {n : Nat} (less : n < 2 ^ 63) :
    integer false (Nat.toDigits 10 n) = .ok n := by
  unfold integer
  rw [natural_toDigits (show n < 2 ^ 64 by omega)]
  exact if_pos less

theorem integer_neg_toDigits {n : Nat} (le : n ≤ 2 ^ 63) :
    integer true (Nat.toDigits 10 n) = .ok (-(n : Int)) := by
  unfold integer
  rw [natural_toDigits (show n < 2 ^ 64 by omega)]
  exact if_pos le

theorem unsigned_toDigits {n : Nat} (less : n < naturalLimit) :
    unsigned (Nat.toDigits 10 n ++ ['u']) = .ok n := by
  unfold unsigned
  rw [if_pos (by simp), List.dropLast_concat]
  exact natural_toDigits less

theorem unescape?_escaped (text : List Char) :
    unescape? (text.flatMap escaped) = some (Utf8.encode text) := by
  induction text with
  | nil => rw [List.flatMap_nil, unescape?]; rfl
  | cons c text ih =>
    rw [List.flatMap_cons, escaped, Utf8.encode_cons]
    split
    next special =>
      have escape : escape? (c :: text.flatMap escaped) = some (String.utf8EncodeChar c, 1) := by
        obtain rfl | rfl := special <;> simp [escape?, simpleEscape?] <;> rfl
      rw [List.cons_append, unescape?, if_pos rfl]
      simp [escape, ih]
    next plain =>
      rw [List.singleton_append, unescape?, if_neg (fun eq => plain (.inr eq)), ih]
      simp

/-- A text in quotes is read as the text. -/
theorem unquote_quoted (text : String) : unquote (quoted text).toList = .ok text := by
  have inner : inner? (quoted text).toList = some (text.toList.flatMap escaped) := by
    simp [quoted, inner?]
  unfold unquote
  rw [inner, Option.bind_some, unescape?_escaped]
  simp [Utf8.toStringLossy, Utf8.decodeLossy_encode]

theorem read_int {n : Nat} (less : n < 2 ^ 63) : read .int false n.repr = .ok (.int n) := by
  simp [read, integer_toDigits less, Except.map]

theorem read_int_neg {n : Nat} (less : n < 2 ^ 63) :
    read .int true (n + 1).repr = .ok (.int (.negSucc n)) := by
  simp [read, integer_neg_toDigits (Nat.succ_le_of_lt less), Except.map, Int.negSucc_eq]

theorem read_uint {n : Nat} (less : n < naturalLimit) :
    read .uint false (n.repr ++ "u") = .ok (.uint n) := by
  simp [read, unsigned_toDigits less, Except.map]

theorem read_bool (value : Bool) :
    read .bool false (if value then "true" else "false") = .ok (.bool value) := by
  cases value <;> rfl

theorem read_string (text : String) : read .string false (quoted text) = .ok (.string text) := by
  simp [read, unquote_quoted, Except.map]

end Frontend.Literal
