import Frontend.Proofs.Positions
import Frontend.Proofs.ReadWords

/-!
Tokens are the longest words. No word that leads a text is longer than what is read at its head; the
one exception is a decimal integer in front of an ellipsis, whose first point would make it a
decimal. With what is known of a run, this holds of every token of a source.
-/
namespace Frontend

/-- A source has a text at an offset. -/
def Source.HasAt (source : Source) (offset : Nat) (text : List Char) : Prop :=
  Utf8.encode text <+: source.code.drop offset

namespace Lexeme

open Lexicon
open Token (Kind)

variable {cut : Option UInt8} {kind : Kind} {size : Nat}

section Longest

variable {k : Kind} {c : Char} {text whole after word more : List Char}

/-- A word that is read takes a character at least. -/
theorem one_le_read (h : read cut (c :: text) = .token kind size) : 1 ≤ size := by
  obtain rfl | ⟨-, positive⟩ := read_size h
  · have nothing := read_terminal h rfl
    cases nothing.2.1
  · exact positive

theorem name_le_readIdent {taken : Nat} (name : Name word)
    (h : readIdent cut taken (word ++ more) = .token kind size) : taken + word.length ≤ size := by
  cases name with
  | @intro c rest letter all =>
    unfold readIdent at h
    rw [List.cons_append] at h
    simp only [letter, if_true, run_append all] at h
    injection h with _ size_eq
    rw [List.length_cons]
    omega

theorem name_le_read (name : Name word) (h : read cut (word ++ more) = .token kind size) :
    word.length ≤ size := by
  have read : readIdent cut 0 (word ++ more) = .token kind size := by
    cases name with
    | intro letter all => rwa [List.cons_append, read_of_letter letter] at h
  have := name_le_readIdent name read
  omega

/-- Letters are a name. -/
theorem name_of_letters (some : word ≠ []) (letters : word.all isLetter = true) : Name word := by
  obtain ⟨first, rest, rfl⟩ := List.exists_cons_of_ne_nil some
  have all := List.all_eq_true.mp letters
  apply Name.intro (all first (by simp))
  intro d mem
  simp [isIdentRest, all d (by simp [mem])]

theorem letters_le_read (some : word ≠ []) (letters : word.all isLetter = true)
    (h : read cut (word ++ more) = .token kind size) : word.length ≤ size :=
  name_le_read (name_of_letters some letters) h

theorem string_le_read (inner : Inner text)
    (h : read cut ('"' :: (text ++ ['"']) ++ more) = .token kind size) : text.length + 2 ≤ size := by
  have closed : stringRest (text ++ ['"'] ++ more) = some (text.length + 1) := by
    rw [List.append_assoc]
    exact stringRest_of_inner inner
  have string : readString cut (text ++ ['"'] ++ more) = .token kind size := h
  simp only [readString, closed] at string
  cases string
  omega

theorem comment_le_read (line : '\n' ∉ text)
    (h : read cut ('!' :: '!' :: text ++ more) = .token kind size) : text.length + 2 ≤ size := by
  have all : ∀ c ∈ text, (c != '\n') = true := by
    intro c mem
    have other : c ≠ '\n' := fun eq => line (eq ▸ mem)
    simpa using other
  have comment : Reading.token .comment (2 + run (· != '\n') (text ++ more)) =
      .token kind size := h
  rw [run_append all] at comment
  cases comment
  omega

theorem digits_le_readDecimal (h : readDecimal cut text = .token kind size) :
    run Char.isDigit text ≤ size := by
  simp only [readDecimal] at h
  split at h
  · split at h <;> cases h
    omega
  · split at h
    · cases h
      omega
    · split at h <;> cases h <;> omega

/-- A word with the longest digits behind the mark of its radix. -/
theorem radix_le_readRadix {p : Char → Bool} {what : Expected} {digits : List Char}
    (some : Digits p digits) (h : readRadix cut p what (digits ++ more) = .token kind size) :
    2 + digits.length ≤ size := by
  simp only [readRadix, run_append some.2] at h
  split at h
  · cases h
  · split at h <;> cases h <;> omega

theorem radix_unsigned_le_readRadix {p : Char → Bool} {what : Expected} {digits : List Char}
    (some : Digits p digits) (unsigned : p 'u' = false)
    (h : readRadix cut p what (digits ++ 'u' :: more) = .token kind size) :
    3 + digits.length ≤ size := by
  have digits_eq : run p (digits ++ 'u' :: more) = digits.length := by
    rw [run_append some.2, run_cons_of_neg unsigned, Nat.add_zero]
  have behind : (digits ++ 'u' :: more).drop digits.length = 'u' :: more := List.drop_left
  simp only [readRadix, digits_eq, behind, List.head?_cons, if_true] at h
  split at h
  · cases h
  · cases h
    omega

theorem read_of_zero (text : List Char) : read cut ('0' :: text) = readNumber cut ('0' :: text) :=
  read_of_digit (by decide)

theorem read_of_digits (some : Digits Char.isDigit whole) :
    read cut (whole ++ after) = readNumber cut (whole ++ after) := by
  obtain ⟨first, rest, rfl⟩ := List.exists_cons_of_ne_nil some.1
  exact read_of_digit (some.2 first (by simp))

/-- Digits with no mark of a radix behind them are read as a decimal, or what there is of it. -/
theorem read_of_decimal (some : Digits Char.isDigit whole)
    (next : ∀ c, after.head? = .some c → radix? c = none) :
    read cut (whole ++ after) = readDecimal cut (whole ++ after) := by
  rw [read_of_digits some, readNumber_append some fun _ => next]

theorem whole_le_read (h : Whole word) (read : read cut (word ++ more) = .token kind size) :
    word.length ≤ size := by
  cases h with
  | decimal some =>
    by_cases single : word.length = 1
    · obtain ⟨first, rfl⟩ := List.length_eq_one_iff.mp single
      exact one_le_read read
    · rw [read_of_digits some, readNumber_append some fun one => absurd one single] at read
      have := digits_le_readDecimal read
      rw [run_append some.2] at this
      omega
  | @hex mark digits marked some =>
    rw [List.cons_append, List.cons_append, read_of_zero] at read
    have radix : readRadix cut isHexDigit .hexDigit (digits ++ more) = .token kind size := by
      obtain rfl | rfl := marked <;> exact read
    have := radix_le_readRadix some radix
    simp only [List.length_cons]
    omega
  | @binary mark digits marked some =>
    rw [List.cons_append, List.cons_append, read_of_zero] at read
    have radix : readRadix cut isBinaryDigit .binaryDigit (digits ++ more) = .token kind size := by
      obtain rfl | rfl := marked <;> exact read
    have := radix_le_readRadix some radix
    simp only [List.length_cons]
    omega

/-- A whole number with the mark of a natural number behind it. -/
theorem unsigned_le_read (h : Whole word)
    (read : read cut (word ++ 'u' :: more) = .token kind size) : word.length + 1 ≤ size := by
  cases h with
  | decimal some =>
    have next : ∀ c, ('u' :: more).head? = .some c → radix? c = none := by
      rintro _ ⟨⟩
      rfl
    have stop : run Char.isDigit ('u' :: more) = 0 := run_cons_of_neg rfl
    rw [read_of_decimal some next, readDecimal_append some.2 stop] at read
    cases read
    exact Nat.le_refl _
  | @hex mark digits marked some =>
    rw [List.cons_append, List.cons_append, read_of_zero] at read
    have radix : readRadix cut isHexDigit .hexDigit (digits ++ 'u' :: more) = .token kind size := by
      obtain rfl | rfl := marked <;> exact read
    have := radix_unsigned_le_readRadix some (by decide) radix
    simp only [List.length_cons]
    omega
  | @binary mark digits marked some =>
    rw [List.cons_append, List.cons_append, read_of_zero] at read
    have radix :
        readRadix cut isBinaryDigit .binaryDigit (digits ++ 'u' :: more) = .token kind size := by
      obtain rfl | rfl := marked <;> exact read
    have := radix_unsigned_le_readRadix some (by decide) radix
    simp only [List.length_cons]
    omega

/-- An exponent that leads a text is its mark and sign, and digits that may go on behind it. -/
theorem exponent_append {exponent : List Char} (scaled : Exponent exponent) :
    ∃ mark scale, exponent.length = mark + scale ∧ mark ≠ 0 ∧ scale ≠ 0 ∧
      exponentMark (exponent ++ more) = mark ∧
      run Char.isDigit ((exponent ++ more).drop mark) = scale + run Char.isDigit more := by
  cases scaled with
  | @unsigned mark digits marked some =>
    obtain ⟨first, rest, rfl⟩ := List.exists_cons_of_ne_nil some.1
    have digit : first.isDigit = true := some.2 first (by simp)
    have unsigned : ¬ (first = '+' ∨ first = '-') := by
      rintro (rfl | rfl) <;> cases digit
    refine ⟨1, (first :: rest).length, Nat.add_comm _ 1, by decide, by simp, ?_, run_append some.2⟩
    simp [exponentMark, marked, unsigned]
  | @signed mark sign digits marked sign_eq some =>
    have nonempty : digits.length ≠ 0 := by simpa using some.1
    refine ⟨2, digits.length, Nat.add_comm _ 2, by decide, nonempty, ?_, run_append some.2⟩
    simp [exponentMark, marked, sign_eq]

theorem exponent_head {exponent : List Char} (scaled : Exponent exponent) :
    ∃ mark rest, exponent = mark :: rest ∧ (mark = 'e' ∨ mark = 'E') := by
  cases scaled with
  | unsigned marked => exact ⟨_, _, rfl, marked⟩
  | signed marked => exact ⟨_, _, rfl, marked⟩

/-- What a decimal takes, once its point and its exponent are known. -/
theorem decimal_le_readDecimal (some : Digits Char.isDigit whole)
    (stop : run Char.isDigit after = 0)
    (h : readDecimal cut (whole ++ after) = .token kind size) :
    whole.length + fraction after ≤ size ∧
      (exponentMark (after.drop (fraction after)) ≠ 0 →
        size = whole.length + fraction after + exponentMark (after.drop (fraction after)) +
          run Char.isDigit
            ((after.drop (fraction after)).drop (exponentMark (after.drop (fraction after))))) := by
  rw [readDecimal_append some.2 stop] at h
  simp only [← List.drop_drop] at h
  by_cases mark : exponentMark (after.drop (fraction after)) = 0
  · rw [if_neg (not_not_intro mark)] at h
    refine ⟨?_, fun marked => absurd mark marked⟩
    by_cases point : fraction after = 0
    · rw [if_neg (not_not_intro point)] at h
      split at h <;> cases h <;> omega
    · rw [if_pos point] at h
      cases h
      exact Nat.le_refl _
  · rw [if_pos mark] at h
    split at h
    · cases h
    · cases h
      exact ⟨by omega, fun _ => rfl⟩

/-- A point that begins no ellipsis takes the digits behind it. -/
theorem fraction_point {rest : List Char} (alone : ¬ ['.', '.'] <+: rest) :
    fraction ('.' :: rest) = 1 + run Char.isDigit rest := by
  unfold fraction
  split
  next same =>
    cases same
    exact absurd (List.prefix_append ['.', '.'] _) alone
  next same =>
    cases same
    rfl
  next other => exact absurd rfl (other rest)

/-- Digits, and what does not begin with a point, begin no ellipsis. -/
theorem not_ellipsis {digits : List Char} (all : ∀ c ∈ digits, c.isDigit = true)
    (other : digits ≠ [] ∨ after.head? ≠ .some '.') : ¬ ['.', '.'] <+: digits ++ after := by
  intro points
  cases digits with
  | nil =>
    obtain ⟨tail, same⟩ := points
    rw [List.nil_append] at same
    rw [← same] at other
    exact other.elim (fun some => some rfl) fun differs => differs rfl
  | cons first rest =>
    have point : '.' = first := (List.cons_prefix_cons.mp points).1
    have digit := all first (by simp)
    rw [← point] at digit
    cases digit

theorem run_exponent {exponent : List Char} (scaled : Exponent exponent) :
    run Char.isDigit (exponent ++ more) = 0 := by
  obtain ⟨mark, rest, rfl, rfl | rfl⟩ := exponent_head scaled
  · exact run_cons_of_neg rfl
  · exact run_cons_of_neg rfl

theorem radix?_of_exponent {exponent : List Char} (scaled : Exponent exponent) :
    ∀ c, (exponent ++ more).head? = .some c → radix? c = none := by
  obtain ⟨mark, rest, rfl, rfl | rfl⟩ := exponent_head scaled
  all_goals
    rintro _ ⟨⟩
    rfl

theorem radix?_of_point : ∀ c, ('.' :: more).head? = .some c → radix? c = none := by
  rintro _ ⟨⟩
  rfl

/-- A decimal takes all of the exponent behind its fraction. -/
theorem exponent_le_readDecimal {exponent : List Char} (some : Digits Char.isDigit whole)
    (stop : run Char.isDigit after = 0) (scaled : Exponent exponent)
    (behind : after.drop (fraction after) = exponent ++ more)
    (h : readDecimal cut (whole ++ after) = .token kind size) :
    whole.length + fraction after + exponent.length ≤ size := by
  have size_eq := (decimal_le_readDecimal some stop h).2
  rw [behind] at size_eq
  obtain ⟨mark, scale, size, marked, _, mark_eq, scale_eq⟩ := @exponent_append more exponent scaled
  rw [mark_eq, scale_eq] at size_eq
  have := size_eq marked
  omega

/-- A decimal without exponent is read to its end at least, but a point that begins an ellipsis is
left. -/
theorem point_le_read {digits : List Char} (some : Digits Char.isDigit whole)
    (all : ∀ c ∈ digits, c.isDigit = true)
    (read : read cut (whole ++ '.' :: (digits ++ more)) = .token kind size) :
    whole.length + 1 + digits.length ≤ size ∨
      kind = .int ∧ size = whole.length ∧ digits = [] ∧ ['.', '.'] <+: more := by
  have stop : run Char.isDigit ('.' :: (digits ++ more)) = 0 := run_cons_of_neg rfl
  rw [read_of_decimal some radix?_of_point] at read
  by_cases ellipsis : ['.', '.'] <+: digits ++ more
  · right
    by_cases nothing : digits = []
    · subst nothing
      rw [List.nil_append] at ellipsis read stop
      obtain ⟨tail, rfl⟩ := ellipsis
      rw [readDecimal_append some.2 stop] at read
      cases read
      exact ⟨rfl, rfl, rfl, List.prefix_append _ _⟩
    · exact absurd ellipsis (not_ellipsis all (.inl nothing))
  · left
    have bound := (decimal_le_readDecimal some stop read).1
    rw [fraction_point ellipsis, run_append all] at bound
    omega

/-- A decimal is read to its end at least, but a point that begins an ellipsis is left. -/
theorem decimal_le_read (h : Decimal word) (read : read cut (word ++ more) = .token kind size) :
    word.length ≤ size ∨
      kind = .int ∧ ∃ digits, Digits Char.isDigit digits ∧ size = digits.length ∧
        word = digits ++ ['.'] ∧ ['.', '.'] <+: more := by
  cases h with
  | @point whole digits some all =>
    rw [List.append_assoc, List.cons_append] at read
    obtain bound | ⟨int, size_eq, rfl, ellipsis⟩ := point_le_read some all read
    · left
      simp only [List.length_append, List.length_cons]
      omega
    · exact .inr ⟨int, whole, some, size_eq, rfl, ellipsis⟩
  | @both whole digits exponent some all scaled =>
    left
    have alone : ¬ ['.', '.'] <+: digits ++ (exponent ++ more) := by
      apply not_ellipsis all
      right
      obtain ⟨mark, rest, rfl, rfl | rfl⟩ := exponent_head scaled <;> simp
    have point : fraction ('.' :: (digits ++ (exponent ++ more))) = 1 + digits.length := by
      rw [fraction_point alone, run_append all, run_exponent scaled, Nat.add_zero]
    have behind : ('.' :: (digits ++ (exponent ++ more))).drop (1 + digits.length) =
        exponent ++ more := by
      rw [Nat.add_comm, List.drop_succ_cons, List.drop_left]
    rw [List.append_assoc, List.cons_append, List.append_assoc,
      read_of_decimal some radix?_of_point] at read
    have := exponent_le_readDecimal some (run_cons_of_neg rfl) scaled (point ▸ behind) read
    simp only [List.length_append, List.length_cons]
    omega
  | @exponent whole exponent some scaled =>
    left
    have point : fraction (exponent ++ more) = 0 := by
      obtain ⟨mark, rest, rfl, rfl | rfl⟩ := exponent_head scaled <;> rfl
    have behind : (exponent ++ more).drop (fraction (exponent ++ more)) = exponent ++ more := by
      rw [point, List.drop_zero]
    rw [List.append_assoc, read_of_decimal some (radix?_of_exponent scaled)] at read
    have := exponent_le_readDecimal some (run_exponent scaled) scaled behind read
    simp only [List.length_append]
    omega

/-- Operators of two characters, and the ellipsis. -/
def longOperators : List Kind :=
  [.or, .and, .equal, .notEqual, .define, .lessEqual, .greaterEqual, .colonColon, .fatArrow,
    .arrow, .ellipsis]

/-- A text that a kind has alone is a character, a longer operator, or a name. -/
theorem spelling_cases (k : Kind) :
    k.spelling.toList.length ≤ 1 ∨ k ∈ longOperators ∨
      k.spelling.toList ≠ [] ∧ k.spelling.toList.all isLetter = true := by
  cases k <;> decide

theorem spelling_le_read (some : k.spelling ≠ "")
    (h : read cut (k.spelling.toList ++ more) = .token kind size) :
    k.spelling.toList.length ≤ size := by
  obtain short | long | ⟨nonempty, letters⟩ := spelling_cases k
  · have nonempty : k.spelling.toList ≠ [] := by simpa using some
    obtain ⟨first, rest, eq⟩ := List.exists_cons_of_ne_nil nonempty
    rw [eq, List.cons_append] at h
    have := one_le_read h
    omega
  · simp only [longOperators, List.mem_cons, List.not_mem_nil, or_false] at long
    obtain rfl | rfl | rfl | rfl | rfl | rfl | rfl | rfl | rfl | rfl | rfl := long
    all_goals
      cases h
      decide
  · exact letters_le_read nonempty letters h

/-- No word that leads a text is longer than what is read at its head, but for a decimal integer in
front of an ellipsis. -/
theorem length_le_read (h : IsWord k word) (read : read cut (word ++ more) = .token kind size) :
    word.length ≤ size ∨
      kind = .int ∧ ∃ digits, Digits Char.isDigit digits ∧ size = digits.length ∧
        word = digits ++ ['.'] ∧ ['.', '.'] <+: more := by
  cases h with
  | int whole => exact .inl (whole_le_read whole read)
  | @uint text whole =>
    left
    rw [List.append_assoc] at read
    rw [List.length_append]
    exact unsigned_le_read whole read
  | float decimal => exact decimal_le_read decimal read
  | @string text inner =>
    left
    have bound := string_le_read inner read
    simp only [List.length_cons, List.length_append, List.length_nil]
    omega
  | ident name => exact .inl (name_le_read name read)
  | @typeVariable text name =>
    left
    have bound : 1 + text.length ≤ size := name_le_readIdent name read
    rw [List.length_cons]
    omega
  | @comment text line => exact .inl (comment_le_read line read)
  | bool value =>
    left
    have letters : (toString value).toList.all isLetter = true := by cases value <;> decide
    have nonempty : (toString value).toList ≠ [] := by cases value <;> decide
    exact letters_le_read nonempty letters read
  | spelled some => exact .inl (spelling_le_read some read)

end Longest

end Lexeme

/-- A token that does not end its stream is a word. -/
theorem Scan.Emitted.isWord {source : Source} {cut : Option UInt8} {t : Token}
    (h : Scan.Emitted source cut t) (going : t.kind.isTerminal = false) :
    Lexicon.IsWord t.kind t.text.toList := by
  cases h with
  | illegal => cases going
  | @word start text kind size faces read =>
    rw [String.toList_ofList]
    apply Lexeme.isWord_read read
    rintro rfl
    cases going

open Lexicon in
/-- Every token of a source but one that ends a stream is a word of its kind, and it is the longest
word that the source has there. Only a decimal integer that stands in front of an ellipsis leaves
out a point that would make it a decimal. -/
theorem tokens_longest_words (source : Source) (t : Token) (emitted : t ∈ (scan source).tokens)
    (going : t.kind.isTerminal = false) :
    IsWord t.kind t.text.toList ∧ source.HasAt t.span.start.offset t.text.toList ∧
      ∀ kind word, IsWord kind word → source.HasAt t.span.start.offset word →
        word.length ≤ t.text.toList.length ∨
          t.kind = .int ∧ Digits Char.isDigit t.text.toList ∧
            source.HasAt t.span.start.offset (t.text.toList ++ ['.', '.', '.']) ∧
            word = t.text.toList ++ ['.'] := by
  have how := (Scan.scan_emitted source).1 t emitted
  cases how with
  | illegal => cases going
  | @word start text kind size faces read =>
    have present : kind ≠ .eof := by
      rintro rfl
      cases going
    rw [String.toList_ofList]
    refine ⟨Lexeme.isWord_read read present, faces.prefix_iff.mpr (List.take_prefix _ _), ?_⟩
    intro kind' word is_word there
    obtain ⟨more, rfl⟩ := faces.prefix_iff.mp there
    obtain short | ⟨int, digits, some, rfl, rfl, ellipsis⟩ := Lexeme.length_le_read is_word read
    · left
      rw [List.length_take, List.length_append]
      omega
    · right
      obtain ⟨tail, rfl⟩ := ellipsis
      have taken : (digits ++ ['.'] ++ (['.', '.'] ++ tail)).take digits.length = digits := by
        rw [List.append_assoc, List.take_left]
      rw [taken]
      refine ⟨int, some, faces.prefix_iff.mpr ⟨tail, ?_⟩, rfl⟩
      simp

/-- An integer in front of an ellipsis: the decimal that the source has there, too, is longer. -/
theorem tokens_longest_words_ellipsis :
    let source : Source := .inMemory "a" (Utf8.ofString "1...")
    let t : Token := ⟨.int, "1", ⟨0, 1, 1⟩, ⟨1, 1, 2⟩⟩
    t ∈ (scan source).tokens ∧ t.kind.isTerminal = false ∧
      Lexicon.IsWord t.kind t.text.toList ∧ source.HasAt t.span.start.offset t.text.toList ∧
      ∀ kind word, Lexicon.IsWord kind word → source.HasAt t.span.start.offset word →
        word.length ≤ t.text.toList.length ∨
          t.kind = .int ∧ Lexicon.Digits Char.isDigit t.text.toList ∧
            source.HasAt t.span.start.offset (t.text.toList ++ ['.', '.', '.']) ∧
            word = t.text.toList ++ ['.'] := by
  intro source t
  have emitted : t ∈ (scan source).tokens := by
    have tokens : (scan source).tokens =
        [t, ⟨.ellipsis, "...", ⟨1, 1, 2⟩, ⟨4, 1, 5⟩⟩, .eofAt ⟨4, 1, 5⟩] := by decide +kernel
    rw [tokens]
    exact List.mem_cons_self
  exact ⟨emitted, rfl, tokens_longest_words source t emitted rfl⟩

end Frontend
