import Frontend.Proofs.Lexicon
import Frontend.Proofs.Tiling

/-!
What is read at the head of a text is a word of its kind. The first character decides which sort of
word it is; numbers are taken apart by what stands behind their first digits.
-/
namespace Frontend.Lexeme

open Lexicon
open Token (Kind)

section Run

variable {p : Char → Bool} {text digits more : List Char}

theorem take_run (p : Char → Bool) (text : List Char) :
    text.take (run p text) = text.takeWhile p :=
  (List.prefix_iff_eq_take.mp (List.takeWhile_prefix p)).symm

theorem all_take_run (p : Char → Bool) (text : List Char) :
    ∀ c ∈ text.take (run p text), p c = true := by
  rw [take_run]
  intro c mem
  exact List.all_eq_true.mp List.all_takeWhile c mem

theorem run_append (all : ∀ c ∈ digits, p c = true) :
    run p (digits ++ more) = digits.length + run p more := by
  rw [run, List.takeWhile_append_of_pos all, List.length_append, run]

theorem run_cons_of_neg {c : Char} (other : p c = false) : run p (c :: more) = 0 := by
  simp [run, other]

/-- A class is left where a run of it ends. -/
theorem run_drop_run (p : Char → Bool) (text : List Char) :
    run p (text.drop (run p text)) = 0 := by
  induction text with
  | nil => rfl
  | cons c text ih =>
    cases h : p c with
    | true =>
      have step : run p (c :: text) = run p text + 1 := by simp [run, h]
      rw [step]
      exact ih
    | false =>
      have stop : run p (c :: text) = 0 := run_cons_of_neg h
      rw [stop, List.drop_zero, stop]

end Run

variable {cut : Option UInt8} {kind : Kind} {size : Nat}

section Heads

variable {c : Char} {rest : List Char}

/-- Characters that begin words which are no numbers, names or plain operators. -/
def special : List Char := ['!', '.', '"', '\'', '|', '&']

theorem read_cons (plain : c ∉ special) :
    read cut (c :: rest) = match operator? c with
      | some (alone, pairs) => readOperator alone pairs rest
      | none =>
        if c.isDigit then readNumber cut (c :: rest) else readIdent cut 0 (c :: rest) := by
  simp only [special, List.mem_cons, List.not_mem_nil, or_false, not_or] at plain
  unfold read
  split
  case h_8 same =>
    cases same
    rfl
  all_goals
    next same => simp [plain] at same

/-- Characters that begin operators. -/
def operators : List Char :=
  ['!', '=', ':', '<', '>', '-', '.', '\n', ';', '(', ')', '{', '}', '[', ']', ',', '+', '*',
    '/', '%']

theorem operator?_eq_none (free : c ∉ operators) : operator? c = none := by
  unfold operator?
  split
  case h_21 => rfl
  all_goals exact absurd (by decide) free

/-- A character of a class is none of some characters outside of it. -/
theorem not_mem_of_class {p : Char → Bool} {chars : List Char}
    (none : chars.all (fun d => !p d) = true) (h : p c = true) : c ∉ chars := by
  intro mem
  have other := List.all_eq_true.mp none c mem
  rw [h] at other
  cases other

theorem read_of_digit (digit : c.isDigit = true) :
    read cut (c :: rest) = readNumber cut (c :: rest) := by
  have plain : c ∉ special := not_mem_of_class (by decide) digit
  have free : c ∉ operators := not_mem_of_class (by decide) digit
  rw [read_cons plain, operator?_eq_none free]
  exact if_pos digit

theorem isDigit_of_isLetter (letter : isLetter c = true) : c.isDigit = false := by
  cases digit : c.isDigit with
  | false => rfl
  | true =>
    have bounds : 48 ≤ c.toNat ∧ c.toNat ≤ 57 := by
      simpa [Char.isDigit, UInt32.le_iff_toNat_le] using digit
    have no_letter : c.isAlpha = false := by
      show (decide ('A'.val ≤ c.val ∧ c.val ≤ 'Z'.val) ||
        decide ('a'.val ≤ c.val) && decide (c.val ≤ 'z'.val)) = false
      simp [UInt32.le_iff_toNat_le]
      omega
    have other : c ≠ '_' := by
      rintro rfl
      simp at bounds
    have ascii : c.toNat < 0x80 := by omega
    simp [isLetter, other, Unicode.isAlphabetic_ascii ascii, no_letter] at letter

/-- A character that begins an identifier begins no other word. -/
theorem read_of_letter (letter : isLetter c = true) :
    read cut (c :: rest) = readIdent cut 0 (c :: rest) := by
  have plain : c ∉ special := not_mem_of_class (by decide) letter
  have free : c ∉ operators := not_mem_of_class (by decide) letter
  rw [read_cons plain, operator?_eq_none free]
  exact if_neg (by simp [isDigit_of_isLetter letter])

end Heads

section Strings

variable {text inner more : List Char}

/-- What closes a string leaves behind it only what may stand inside. -/
theorem inner_of_stringRest (h : stringRest text = some size) :
    ∃ inner, Inner inner ∧ text.take size = inner ++ ['"'] := by
  fun_induction stringRest text generalizing size with
  | case1 => cases h
  | case2 => cases h
  | case3 c rest ih =>
    obtain ⟨n, closed, rfl⟩ := Option.map_eq_some_iff.mp h
    obtain ⟨inner, good, taken⟩ := ih closed
    exact ⟨'\\' :: c :: inner, .escape good, by simp [taken]⟩
  | case4 rest =>
    cases h
    exact ⟨[], .nil, rfl⟩
  | case5 c rest no_end no_escape no_quote ih =>
    obtain ⟨n, closed, rfl⟩ := Option.map_eq_some_iff.mp h
    obtain ⟨inner, good, taken⟩ := ih closed
    have free : c ≠ '"' ∧ c ≠ '\\' := by
      refine ⟨no_quote, ?_⟩
      rintro rfl
      cases rest with
      | nil => exact no_end rfl rfl
      | cons d rest => exact no_escape d rest rfl rfl
    exact ⟨c :: inner, .plain free good, by simp [taken]⟩

theorem stringRest_of_inner (h : Inner inner) :
    stringRest (inner ++ '"' :: more) = some (inner.length + 1) := by
  induction h with
  | nil => rfl
  | @plain c text free _ ih =>
    have step : stringRest (c :: (text ++ '"' :: more)) =
        (stringRest (text ++ '"' :: more)).map (· + 1) := by
      simp [stringRest, free]
    rw [List.cons_append, step, ih]
    rfl
  | @escape c text _ ih =>
    have step : stringRest ('\\' :: c :: (text ++ '"' :: more)) =
        (stringRest (text ++ '"' :: more)).map (· + 2) := by
      simp [stringRest]
    rw [List.cons_append, List.cons_append, step, ih]
    rfl

end Strings

section Numbers

variable {whole text after more : List Char}

theorem isDigit_of_radix? {c : Char} {radix : (Char → Bool) × Expected}
    (h : radix? c = some radix) : c.isDigit = false := by
  unfold radix? at h
  split at h
  case h_5 => cases h
  all_goals rfl

/-- A number that begins with digits. Only a single digit may have the mark of a radix behind it. -/
theorem readNumber_append (some : Digits Char.isDigit whole)
    (next : whole.length = 1 → ∀ c, after.head? = .some c → radix? c = none) :
    readNumber cut (whole ++ after) = readDecimal cut (whole ++ after) := by
  obtain ⟨first, rest, rfl⟩ := List.exists_cons_of_ne_nil some.1
  unfold readNumber
  split
  next mark tail same =>
    have unmarked : radix? mark = none := by
      cases rest with
      | nil =>
        apply next rfl
        have tail_eq : after = mark :: tail := (List.cons.inj same).2
        rw [tail_eq]
        rfl
      | cons second rest =>
        have eq : second = mark := (List.cons.inj (List.cons.inj same).2).1
        cases found : radix? mark with
        | none => rfl
        | some radix =>
          have digit : second.isDigit = true := some.2 second (by simp)
          rw [eq, isDigit_of_radix? found] at digit
          cases digit
    rw [unmarked]
  next => rfl

/-- What comes of a decimal depends on what stands behind its first digits. -/
theorem readDecimal_append (digits : ∀ c ∈ whole, c.isDigit = true)
    (stop : run Char.isDigit after = 0) :
    readDecimal cut (whole ++ after) =
      let point := fraction after
      let mark := exponentMark (after.drop point)
      let scaled := after.drop (point + mark)
      let scale := run Char.isDigit scaled
      if mark ≠ 0 then
        if scale = 0 then
          .fault (.expected .exponentDigit (.at cut scaled)) (whole.length + point + mark)
        else .token .float (whole.length + point + mark + scale)
      else if point ≠ 0 then .token .float (whole.length + point)
      else if after.head? = some 'u' then .token .uint (whole.length + 1)
      else .token .int whole.length := by
  have size : run Char.isDigit (whole ++ after) = whole.length := by
    rw [run_append digits, stop, Nat.add_zero]
  have behind (n : Nat) : (whole ++ after).drop (whole.length + n) = after.drop n := by
    rw [← List.drop_drop, List.drop_left]
  have here : (whole ++ after).drop whole.length = after := List.drop_left
  simp only [readDecimal, size, here, behind, Nat.add_assoc]
  have point : whole.length + fraction after ≠ whole.length ↔ fraction after ≠ 0 := by omega
  simp only [point]
  by_cases mark : exponentMark (after.drop (fraction after)) = 0
  · by_cases none : fraction after = 0
    · rw [none, List.drop_zero] at mark
      simp [mark, none]
    · simp [mark, none]
  · simp [mark]

/-- A fraction is a point with digits behind it. -/
theorem fraction_eq (text : List Char) :
    fraction text = 0 ∨
      ∃ rest, text = '.' :: rest ∧ fraction text = 1 + run Char.isDigit rest := by
  unfold fraction
  split
  · exact .inl rfl
  next rest _ => exact .inr ⟨rest, rfl, rfl⟩
  · exact .inl rfl

theorem exponent_of_mark (mark : exponentMark text ≠ 0)
    (some : run Char.isDigit (text.drop (exponentMark text)) ≠ 0) :
    Exponent (text.take
      (exponentMark text + run Char.isDigit (text.drop (exponentMark text)))) := by
  have digits (rest : List Char) (some : run Char.isDigit rest ≠ 0) :
      Digits Char.isDigit (rest.take (run Char.isDigit rest)) := by
    refine ⟨?_, all_take_run _ _⟩
    intro empty
    obtain zero | rfl := List.take_eq_nil_iff.mp empty
    · exact some zero
    · exact some rfl
  cases text with
  | nil => exact absurd rfl mark
  | cons e rest =>
    by_cases marked : e = 'e' ∨ e = 'E'
    · cases rest with
      | nil =>
        simp [exponentMark, marked, run] at some
      | cons s rest =>
        by_cases sign : s = '+' ∨ s = '-'
        · have size : exponentMark (e :: s :: rest) = 2 := by simp [exponentMark, marked, sign]
          rw [size] at some ⊢
          have taken := Exponent.signed marked sign (digits rest some)
          simpa [Nat.add_comm 2] using taken
        · have size : exponentMark (e :: s :: rest) = 1 := by simp [exponentMark, marked, sign]
          rw [size] at some ⊢
          have taken := Exponent.unsigned marked (digits (s :: rest) some)
          simpa [Nat.add_comm 1] using taken
    · exact absurd (by simp [exponentMark, marked]) mark

end Numbers

section Sound

variable {c : Char} {text rest whole after : List Char}

/-- The texts of operators and reserved words are the characters that they are read by. -/
theorem spelling_operator? {alone : Kind} {pairs : List (Char × Kind)}
    (h : operator? c = some (alone, pairs)) :
    alone.spelling.toList = [c] ∧ ∀ entry ∈ pairs, entry.2.spelling.toList = [c, entry.1] := by
  unfold operator? at h
  split at h <;> cases h <;> decide

theorem isWord_of_spelling (same : kind.spelling.toList = text) (some : text ≠ []) :
    IsWord kind text := by
  subst same
  apply IsWord.spelled
  intro empty
  rw [empty] at some
  exact some rfl

theorem isWord_readOperator {alone : Kind} {pairs : List (Char × Kind)}
    (operator : operator? c = some (alone, pairs))
    (h : readOperator alone pairs rest = .token kind size) :
    IsWord kind ((c :: rest).take size) := by
  obtain ⟨single, double⟩ := spelling_operator? operator
  unfold readOperator at h
  split at h
  next found =>
    obtain ⟨d, head, found⟩ := Option.bind_eq_some_iff.mp found
    obtain ⟨before, behind, pairs_eq, -⟩ := List.lookup_eq_some_iff.mp found
    obtain ⟨tail, rfl⟩ := List.head?_eq_some_iff.mp head
    cases h
    exact isWord_of_spelling (double (d, kind) (by rw [pairs_eq]; simp)) (List.cons_ne_nil _ _)
  next =>
    cases h
    exact isWord_of_spelling single (List.cons_ne_nil _ _)

theorem isWord_readDoubled {doubled : Kind} (spelling : doubled.spelling.toList = [c, c])
    (h : readDoubled cut c doubled rest = .token kind size) :
    IsWord kind ((c :: rest).take size) := by
  unfold readDoubled at h
  split at h
  next head =>
    obtain ⟨tail, rfl⟩ := List.head?_eq_some_iff.mp head
    cases h
    exact isWord_of_spelling spelling (List.cons_ne_nil _ _)
  next => cases h

theorem isWord_readString (h : readString cut rest = .token kind size) :
    IsWord kind (('"' :: rest).take size) := by
  unfold readString at h
  split at h
  next n closed =>
    cases h
    obtain ⟨inner, good, taken⟩ := inner_of_stringRest closed
    rw [Nat.add_comm, List.take_succ_cons, taken]
    exact .string good
  all_goals cases h

/-- A reserved word is a word of its kind. -/
theorem isWord_of_keyword {word : String} (h : Kind.ofKeyword? word = some kind) :
    IsWord kind word.toList := by
  obtain ⟨before, behind, keywords, -⟩ := List.lookup_eq_some_iff.mp h
  have spelled : ∀ entry ∈ Kind.keywords,
      entry.2.spelling = entry.1 ∧ entry.1.toList ≠ [] ∨
        entry.2 = .bool ∧ (entry.1 = toString true ∨ entry.1 = toString false) := by decide
  obtain ⟨same, some⟩ | ⟨rfl, rfl | rfl⟩ := spelled (word, kind) (by rw [keywords]; simp)
  · exact isWord_of_spelling (congrArg String.toList same) some
  · exact .bool true
  · exact .bool false

theorem name_take (letter : isLetter c = true) : Name ((c :: rest).take (1 + run isIdentRest rest)) := by
  rw [Nat.add_comm, List.take_succ_cons]
  exact .intro letter (all_take_run _ _)

theorem isWord_readIdent (h : readIdent cut 0 text = .token kind size) :
    IsWord kind (text.take size) := by
  unfold readIdent at h
  split at h
  next c rest =>
    by_cases letter : isLetter c = true
    · simp only [letter, if_true] at h
      injection h with kind_eq size_eq
      rw [Nat.zero_add] at size_eq
      subst size_eq
      cases found : Kind.ofKeyword? (String.ofList ((c :: rest).take (1 + run isIdentRest rest))) with
      | none =>
        rw [found] at kind_eq
        subst kind_eq
        exact .ident (name_take letter) found
      | some k =>
        rw [found] at kind_eq
        subst kind_eq
        simpa using isWord_of_keyword found
    · simp [letter] at h
  next => cases h

theorem isWord_readTypeVariable (h : readIdent cut 1 rest = .token kind size) :
    IsWord kind (('\'' :: rest).take size) := by
  unfold readIdent at h
  split at h
  next c rest =>
    by_cases letter : isLetter c = true
    · simp only [letter, if_true, Nat.succ_ne_self, if_false] at h
      injection h with kind_eq size_eq
      subst kind_eq size_eq
      rw [Nat.add_comm 1, List.take_succ_cons]
      exact .typeVariable (name_take letter)
    · simp [letter] at h
  next => cases h

theorem isWord_readRadix {p : Char → Bool} {what : Expected}
    (whole : ∀ digits, Digits p digits → Whole ('0' :: c :: digits))
    (h : readRadix cut p what rest = .token kind size) :
    IsWord kind (('0' :: c :: rest).take size) := by
  simp only [readRadix] at h
  split at h
  next => cases h
  next wrong =>
    have some : run p rest ≠ 0 := fun zero => wrong (.inl zero)
    have digits : Digits p (rest.take (run p rest)) := by
      refine ⟨?_, all_take_run _ _⟩
      intro empty
      obtain zero | rfl := List.take_eq_nil_iff.mp empty
      · exact some zero
      · exact some rfl
    split at h
    next unsigned =>
      cases h
      obtain ⟨tail, behind⟩ := List.head?_eq_some_iff.mp unsigned
      have taken : rest.take (run p rest + 1) = rest.take (run p rest) ++ ['u'] := by
        rw [List.take_add, behind]
        rfl
      have word := IsWord.uint (whole _ digits)
      rw [Nat.add_comm 3, List.take_succ_cons, List.take_succ_cons, taken]
      exact word
    next =>
      cases h
      rw [Nat.add_comm 2, List.take_succ_cons, List.take_succ_cons]
      exact .int (whole _ digits)

theorem isWord_readDecimal (some : Digits Char.isDigit whole) (stop : run Char.isDigit after = 0)
    (h : readDecimal cut (whole ++ after) = .token kind size) :
    IsWord kind ((whole ++ after).take size) := by
  have taken (n : Nat) : (whole ++ after).take (whole.length + n) = whole ++ after.take n := by
    rw [List.take_add, List.take_left, List.drop_left]
  rw [readDecimal_append some.2 stop] at h
  simp only at h
  by_cases mark : exponentMark (after.drop (fraction after)) = 0
  · by_cases point : fraction after = 0
    · rw [if_neg (not_not_intro mark), if_neg (not_not_intro point)] at h
      split at h
      next unsigned =>
        cases h
        obtain ⟨tail, rfl⟩ := List.head?_eq_some_iff.mp unsigned
        rw [taken]
        exact .uint (.decimal some)
      next =>
        cases h
        rw [List.take_left]
        exact .int (.decimal some)
    · rw [if_neg (not_not_intro mark), if_pos point] at h
      cases h
      obtain zero | ⟨rest, rfl, size⟩ := fraction_eq after
      · exact absurd zero point
      rw [taken, size, Nat.add_comm 1, List.take_succ_cons]
      exact .float (.point some (all_take_run _ _))
  · rw [if_pos mark] at h
    split at h
    next => cases h
    next scale =>
      cases h
      rw [← List.drop_drop] at scale ⊢
      have scaled := exponent_of_mark mark scale
      rw [Nat.add_assoc, Nat.add_assoc, taken, List.take_add]
      obtain zero | ⟨rest, rfl, size⟩ := fraction_eq after
      · rw [zero, List.take_zero, List.nil_append]
        rw [zero] at scaled
        exact .float (.exponent some scaled)
      · rw [size] at scaled ⊢
        rw [Nat.add_comm 1 (run _ _)] at scaled ⊢
        exact .float (.both some (all_take_run _ _) scaled)

/-- A number is read as a word. -/
theorem isWord_readNumber (digit : c.isDigit = true)
    (h : readNumber cut (c :: rest) = .token kind size) :
    IsWord kind ((c :: rest).take size) := by
  have decimal (h : readDecimal cut (c :: rest) = .token kind size) :
      IsWord kind ((c :: rest).take size) := by
    have split : (c :: rest).takeWhile Char.isDigit ++
        (c :: rest).drop (run Char.isDigit (c :: rest)) = c :: rest :=
      List.prefix_iff_eq_append.mp (List.takeWhile_prefix _)
    rw [← split] at h ⊢
    refine isWord_readDecimal ⟨?_, ?_⟩ (run_drop_run _ _) h
    · simp [digit]
    · exact fun d mem => List.all_eq_true.mp List.all_takeWhile d mem
  unfold readNumber at h
  split at h
  next mark tail same =>
    split at h
    next isDigit what marked =>
      cases same
      unfold radix? at marked
      split at marked
      · cases marked
        exact isWord_readRadix (fun _ some => .hex (.inl rfl) some) h
      · cases marked
        exact isWord_readRadix (fun _ some => .hex (.inr rfl) some) h
      · cases marked
        exact isWord_readRadix (fun _ some => .binary (.inl rfl) some) h
      · cases marked
        exact isWord_readRadix (fun _ some => .binary (.inr rfl) some) h
      · cases marked
    next => exact decimal h
  next => exact decimal h

/-- What is read at the head of a text is a word of its kind, unless it is the end. -/
theorem isWord_read (h : read cut text = .token kind size) (going : kind ≠ .eof) :
    IsWord kind (text.take size) := by
  unfold read at h
  split at h
  next =>
    cases cut with
    | none =>
      cases h
      exact absurd rfl going
    | some b => cases h
  next rest =>
    cases h
    rw [Nat.add_comm, List.take_succ_cons, List.take_succ_cons]
    apply IsWord.comment
    intro newline
    simpa using all_take_run (· != '\n') rest '\n' newline
  next =>
    cases h
    exact isWord_of_spelling rfl (List.cons_ne_nil _ _)
  next => exact isWord_readString h
  next => exact isWord_readTypeVariable h
  next => exact isWord_readDoubled rfl h
  next => exact isWord_readDoubled rfl h
  next =>
    split at h
    next operator => exact isWord_readOperator operator h
    next =>
      split at h
      next digit => exact isWord_readNumber digit h
      next => exact isWord_readIdent h

end Sound

end Frontend.Lexeme
