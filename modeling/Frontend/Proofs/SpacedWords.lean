import Frontend.Proofs.LongestWords

/-!
Words with spaces between them. In front of a space, or at the end of a text, a word of any kind is
read whole and as a word of that kind: neither the space nor the word behind it changes what is
read. So scanning takes apart what spaces join. Comments are no such words, since they go on over
spaces.
-/
namespace Frontend

/-- White space is no letter. -/
theorem Unicode.isAlphabetic_of_isWhitespace {c : Char} (h : isWhitespace c = true) :
    isAlphabetic c = false := by
  unfold isAlphabetic
  split
  next ascii =>
    obtain ⟨r, mem, low, high⟩ := inRanges_iff.mp h
    have few : ∀ r ∈ whitespaceRanges, r.1 < 0x80 → r = (9, 13) ∨ r = (32, 32) := by decide
    show (decide ('A'.val ≤ c.val ∧ c.val ≤ 'Z'.val) ||
      decide ('a'.val ≤ c.val) && decide (c.val ≤ 'z'.val)) = false
    obtain rfl | rfl := few r mem (by omega)
    all_goals
      simp [UInt32.le_iff_toNat_le] at low high ⊢
      omega
  next => exact inRanges_of_apart (by decide +kernel) h

namespace Lexeme

open Lexicon
open Token (Kind)

/-- A text that is empty or begins with one of some characters. -/
def OpensIn (chars : List Char) (more : List Char) : Prop := ∀ c, more.head? = some c → c ∈ chars

variable {cut : Option UInt8} {kind : Kind} {chars word digits whole more : List Char}

section Boundary

theorem opensIn_nil : OpensIn chars [] := fun _ nothing => nomatch nothing

theorem opensIn_cons {c : Char} (mem : c ∈ chars) : OpensIn chars (c :: more) := by
  intro d head
  obtain rfl := Option.some.inj head
  exact mem

theorem OpensIn.head?_ne {c : Char} (opens : OpensIn chars more) (other : c ∉ chars) :
    more.head? ≠ some c :=
  fun head => other (opens c head)

/-- A run of a class ends in front of what is outside of it. -/
theorem OpensIn.run {p : Char → Bool} (opens : OpensIn chars more)
    (outside : chars.any p = false) : run p more = 0 := by
  cases more with
  | nil => rfl
  | cons c rest =>
    exact run_cons_of_neg (Bool.eq_false_iff.mpr (List.any_eq_false.mp outside c (opens c rfl)))

/-- A run of a class goes to the end of a word of that class. -/
theorem OpensIn.run_word {p : Char → Bool} (opens : OpensIn chars more)
    (outside : chars.any p = false) (all : ∀ c ∈ word, p c = true) :
    Lexeme.run p (word ++ more) = word.length := by
  rw [run_append all, opens.run outside, Nat.add_zero]

theorem OpensIn.any {p : Char → Bool} (opens : OpensIn chars more)
    (outside : chars.any p = false) : more.head?.any p = false := by
  cases more with
  | nil => rfl
  | cons c rest => exact Bool.eq_false_iff.mpr (List.any_eq_false.mp outside c (opens c rfl))

theorem OpensIn.fraction (opens : OpensIn chars more) (no_point : '.' ∉ chars) :
    fraction more = 0 := by
  obtain none | ⟨rest, rfl, _⟩ := fraction_eq more
  · exact none
  · exact absurd rfl (opens.head?_ne no_point)

theorem OpensIn.exponentMark (opens : OpensIn chars more) (no_mark : 'e' ∉ chars ∧ 'E' ∉ chars) :
    exponentMark more = 0 := by
  cases more with
  | nil => rfl
  | cons c rest =>
    have other : ¬ (c = 'e' ∨ c = 'E') := by
      rintro (rfl | rfl)
      · exact opens.head?_ne no_mark.1 rfl
      · exact opens.head?_ne no_mark.2 rfl
    simp [Lexeme.exponentMark, other]

end Boundary

section Numbers

/-- What is read of digits behind the mark of a radix. -/
theorem readRadix_append {p : Char → Bool} {what : Expected} (some : Digits p digits)
    (opens : OpensIn [' ', 'u'] more) (space : p ' ' = false) (unsigned : p 'u' = false) :
    readRadix cut p what (digits ++ more) =
      if more.head? = .some 'u' then .token .uint (digits.length + 2 + 1)
      else .token .int (digits.length + 2) := by
  have size : run p (digits ++ more) = digits.length :=
    opens.run_word (by simp [space, unsigned]) some.2
  have behind : (digits ++ more).drop digits.length = more := List.drop_left
  have other : more.head?.any Char.isDigit = false := opens.any (by decide)
  simp [readRadix, size, behind, other, some.1, Nat.add_comm 2, Nat.add_comm 3]

/-- A whole number is read up to its end, with the mark of a natural number if there is one. -/
theorem read_whole_append (h : Whole word) (opens : OpensIn [' ', 'u'] more) :
    read cut (word ++ more) =
      if more.head? = some 'u' then .token .uint (word.length + 1)
      else .token .int word.length := by
  cases h with
  | decimal some =>
    have next : ∀ c, more.head? = .some c → radix? c = none := by
      intro c head
      have unmarked : ∀ c ∈ [' ', 'u'], radix? c = none :=
        List.forall_mem_cons.mpr ⟨rfl, List.forall_mem_singleton.mpr rfl⟩
      exact unmarked c (opens c head)
    have stop : run Char.isDigit more = 0 := opens.run (by decide)
    have point : fraction more = 0 := opens.fraction (by decide)
    have scale : exponentMark more = 0 := opens.exponentMark (by decide)
    rw [read_of_decimal some next, readDecimal_append some.2 stop, point]
    simp [scale]
  | hex marked some =>
    rw [List.cons_append, List.cons_append, read_of_zero]
    obtain rfl | rfl := marked
    all_goals exact readRadix_append some opens (by decide) (by decide)
  | binary marked some =>
    rw [List.cons_append, List.cons_append, read_of_zero]
    obtain rfl | rfl := marked
    all_goals exact readRadix_append some opens (by decide) (by decide)

/-- Digits with a fraction and an exponent behind them, of which one may be missing, are read as a
decimal. -/
theorem read_scaled_append {point exponent : List Char} (some : Digits Char.isDigit whole)
    (fraction_eq : fraction (point ++ (exponent ++ more)) = point.length)
    (stop : run Char.isDigit (point ++ (exponent ++ more)) = 0)
    (mark : ∀ c, (point ++ (exponent ++ more)).head? = .some c → radix? c = none)
    (scaled : exponent = [] ∧ point ≠ [] ∨ Exponent exponent) (opens : OpensIn [' '] more) :
    read cut (whole ++ (point ++ (exponent ++ more))) =
      .token .float (whole.length + point.length + exponent.length) := by
  have behind (n : Nat) : (point ++ (exponent ++ more)).drop (point.length + n) =
      (exponent ++ more).drop n := by
    rw [← List.drop_drop, List.drop_left]
  rw [read_of_decimal some mark, readDecimal_append some.2 stop, fraction_eq]
  simp only [behind, List.drop_left]
  obtain ⟨rfl, pointed⟩ | scaled := scaled
  · have none : exponentMark more = 0 := opens.exponentMark (by decide)
    simp [none, List.length_eq_zero_iff, pointed]
  · have digits : run Char.isDigit more = 0 := opens.run (by decide)
    obtain ⟨mark, scale, size, marked, some, mark_eq, scale_eq⟩ := @exponent_append more _ scaled
    rw [mark_eq, scale_eq, digits, Nat.add_zero, if_pos marked, if_neg some, size, Nat.add_assoc _ mark]

theorem read_float_append (h : Decimal word) (opens : OpensIn [' '] more) :
    read cut (word ++ more) = .token .float word.length := by
  cases h with
  | @point whole digits some all =>
    have alone : ¬ ['.', '.'] <+: digits ++ more :=
      not_ellipsis all (.inr (opens.head?_ne (by decide)))
    have size : fraction ('.' :: digits ++ ([] ++ more)) = digits.length + 1 := by
      rw [List.nil_append, List.cons_append, fraction_point alone,
        opens.run_word (by decide) all, Nat.add_comm]
    have read : read cut (whole ++ ('.' :: digits ++ ([] ++ more))) = _ :=
      read_scaled_append some size (run_cons_of_neg rfl) radix?_of_point
        (.inl ⟨rfl, List.cons_ne_nil _ _⟩) opens
    rw [List.append_assoc, List.length_append]
    exact read
  | @both whole digits exponent some all scaled =>
    have alone : ¬ ['.', '.'] <+: digits ++ (exponent ++ more) := by
      apply not_ellipsis all
      right
      obtain ⟨mark, rest, rfl, rfl | rfl⟩ := exponent_head scaled <;> simp
    have size : fraction ('.' :: digits ++ (exponent ++ more)) = digits.length + 1 := by
      rw [List.cons_append, fraction_point alone, run_append all, run_exponent scaled,
        Nat.add_zero, Nat.add_comm]
    have read : read cut (whole ++ ('.' :: digits ++ (exponent ++ more))) = _ :=
      read_scaled_append some size (run_cons_of_neg rfl) radix?_of_point (.inr scaled) opens
    rw [← List.cons_append, ← List.append_assoc, List.append_assoc, List.append_assoc,
      List.length_append, List.length_append]
    exact read
  | @exponent whole exponent some scaled =>
    have size : fraction ([] ++ (exponent ++ more)) = 0 := by
      obtain ⟨mark, rest, rfl, rfl | rfl⟩ := exponent_head scaled <;> rfl
    have stop : run Char.isDigit (exponent ++ more) = 0 := run_exponent scaled
    have mark : ∀ c, (exponent ++ more).head? = .some c → radix? c = none :=
      radix?_of_exponent scaled
    have read : read cut (whole ++ ([] ++ (exponent ++ more))) = _ :=
      read_scaled_append some size stop mark (.inr scaled) opens
    rw [List.append_assoc, List.length_append]
    exact read

end Numbers

section Names

/-- A name is read up to its end. It is what the reserved words make of it. -/
theorem read_name_append (name : Name word) (stop : run isIdentRest more = 0) :
    read cut (word ++ more) =
      .token ((Kind.ofKeyword? (String.ofList word)).getD .ident) word.length := by
  cases name with
  | @intro c rest letter all =>
    have size : run isIdentRest (rest ++ more) = rest.length := by
      rw [run_append all, stop, Nat.add_zero]
    rw [List.cons_append, read_of_letter letter]
    simp [readIdent, letter, size, Nat.add_comm 1]

theorem read_typeVariable_append (name : Name word) (stop : run isIdentRest more = 0) :
    read cut ('\'' :: word ++ more) = .token .ident (word.length + 1) := by
  cases name with
  | @intro c rest letter all =>
    have size : run isIdentRest (rest ++ more) = rest.length := by
      rw [run_append all, stop, Nat.add_zero]
    have ident : read cut ('\'' :: (c :: rest) ++ more) = readIdent cut 1 (c :: (rest ++ more)) := rfl
    rw [ident]
    simp [readIdent, letter, size]
    omega

/-- An identifier of either sort ends in front of what cannot go on with it. -/
theorem read_ident_append (h : IsWord .ident word) (stop : run isIdentRest more = 0) :
    read cut (word ++ more) = .token .ident word.length := by
  generalize kind_eq : Kind.ident = kind at h
  cases h with
  | ident name free =>
    rw [read_name_append name stop, free]
    rfl
  | typeVariable name => exact read_typeVariable_append name stop
  | spelled only =>
    subst kind_eq
    exact absurd rfl only
  | _ => cases kind_eq

theorem read_string_append {inner : List Char} (good : Inner inner) :
    read cut ('"' :: (inner ++ ['"']) ++ more) = .token .string (inner.length + 2) := by
  have closed : stringRest (inner ++ ['"'] ++ more) = some (inner.length + 1) := by
    rw [List.append_assoc]
    exact stringRest_of_inner good
  have string : read cut ('"' :: (inner ++ ['"']) ++ more) = readString cut (inner ++ ['"'] ++ more) :=
    rfl
  simp only [string, readString, closed, Nat.add_comm 1]

end Names

section Spelled

/-- Characters and longer texts that are operators, brackets, separators or newlines. -/
def marks : List Kind :=
  [.newline, .semicolon, .lparen, .rparen, .lbrace, .rbrace, .lbracket, .rbracket, .minus, .plus,
    .star, .div, .not, .percent, .assign, .less, .greater, .dot, .colon, .comma] ++ longOperators

/-- A text that a kind has alone is a mark or a reserved word. -/
theorem mark_or_keyword (k : Kind) (some : k.spelling ≠ "") :
    k ∈ marks ∨ k.spelling.toList.all isLetter = true ∧ Kind.ofKeyword? k.spelling = .some k := by
  revert some
  cases k <;> decide

theorem read_mark_append (mark : kind ∈ marks) (opens : OpensIn [' '] more) :
    read cut (kind.spelling.toList ++ more) = .token kind kind.spelling.toList.length := by
  have apart : more = [] ∨ ∃ rest, more = ' ' :: rest := by
    cases more with
    | nil => exact .inl rfl
    | cons c rest =>
      obtain rfl := List.mem_singleton.mp (opens c rfl)
      exact .inr ⟨rest, rfl⟩
  obtain rfl | ⟨rest, rfl⟩ := apart
  all_goals cases kind <;> first | exact absurd mark (by decide) | rfl

end Spelled

/-- In front of a space or the end, a word is read whole and as what it is. -/
theorem read_word_append (h : IsWord kind word) (line : kind ≠ .comment)
    (opens : OpensIn [' '] more) :
    read cut (word ++ more) = .token kind word.length := by
  cases h with
  | int whole =>
    have wider : OpensIn [' ', 'u'] more := fun c head =>
      List.mem_append_left ['u'] (opens c head)
    rw [read_whole_append whole wider, if_neg (opens.head?_ne (by decide))]
  | @uint text whole =>
    have wider : OpensIn [' ', 'u'] ('u' :: more) := opensIn_cons (by decide)
    rw [List.append_assoc, List.length_append]
    exact read_whole_append whole wider
  | float decimal => exact read_float_append decimal opens
  | @string inner good =>
    rw [read_string_append good, List.length_cons, List.length_append]
    rfl
  | ident name free => exact read_ident_append (.ident name free) (opens.run (by decide))
  | typeVariable name => exact read_ident_append (.typeVariable name) (opens.run (by decide))
  | comment => exact absurd rfl line
  | bool value =>
    have name : Name (toString value).toList := by
      cases value <;> exact name_of_letters (by decide) (by decide)
    rw [read_name_append name (opens.run (by decide))]
    cases value <;> rfl
  | spelled some =>
    obtain mark | ⟨letters, keyword⟩ := mark_or_keyword kind some
    · exact read_mark_append mark opens
    · have name : Name kind.spelling.toList := name_of_letters (by simpa using some) letters
      rw [read_name_append name (opens.run (by decide)), String.ofList_toList, keyword]
      rfl

section Blanks

theorem isBlank_of_isLetter {c : Char} (letter : isLetter c = true) : isBlank c = false := by
  cases white : Unicode.isWhitespace c with
  | false => simp [isBlank, white]
  | true =>
    obtain rfl | alphabetic : c = '_' ∨ Unicode.isAlphabetic c = true := by
      simpa [isLetter] using letter
    · cases white
    · rw [Unicode.isAlphabetic_of_isWhitespace white] at alphabetic
      cases alphabetic

theorem isBlank_of_isDigit {c : Char} (digit : c.isDigit = true) : isBlank c = false := by
  have bounds : 48 ≤ c.toNat ∧ c.toNat ≤ 57 := by
    simpa [Char.isDigit, UInt32.le_iff_toNat_le] using digit
  cases white : Unicode.isWhitespace c with
  | false => simp [isBlank, white]
  | true =>
    have apart : ∀ r ∈ Unicode.whitespaceRanges, r.2 < 48 ∨ 57 < r.1 := by decide
    obtain ⟨r, mem, _, _⟩ := Unicode.inRanges_iff.mp white
    have := apart r mem
    omega

/-- Words begin with a character that is not blank. -/
theorem head?_word (h : IsWord kind word) : word.head?.any (fun c => !isBlank c) = true := by
  have digits {whole more : List Char} (some : Digits Char.isDigit whole) :
      (whole ++ more).head?.any (fun c => !isBlank c) = true := by
    obtain ⟨first, rest, rfl⟩ := List.exists_cons_of_ne_nil some.1
    simp [isBlank_of_isDigit (some.2 first (by simp))]
  have number {word more : List Char} (h : Whole word) :
      (word ++ more).head?.any (fun c => !isBlank c) = true := by
    cases h with
    | decimal some => exact digits some
    | hex | binary => rfl
  have letters {word : List Char} (name : Name word) :
      word.head?.any (fun c => !isBlank c) = true := by
    cases name with
    | intro letter all => simp [isBlank_of_isLetter letter]
  cases h with
  | int whole =>
    rw [← List.append_nil word]
    exact number whole
  | uint whole => exact number whole
  | float decimal =>
    cases decimal with
    | point some | both some | exponent some => exact digits some
  | string | typeVariable | comment => rfl
  | ident name => exact letters name
  | bool value => cases value <;> decide
  | spelled some =>
    have marked : ∀ k ∈ marks, k.spelling.toList.head?.any (fun c => !isBlank c) = true := by decide
    obtain mark | ⟨all, _⟩ := mark_or_keyword kind some
    · exact marked kind mark
    · exact letters (name_of_letters (by simpa using some) all)

end Blanks

end Lexeme

namespace Scan

open Lexeme Lexicon

variable {name : String} {here : Position} {kind : Token.Kind} {gap word more : List Char}

theorem onward_nil (name : String) (here : Position) :
    onward name none none here [] = ⟨[.eofAt here], [], [.lexed (.eofAt here), .finished name]⟩ := by
  rw [onward]
  rfl

/-- A text that comes apart into words, each with blanks in front of it and read as a word of its
kind in front of what follows. Comments are left out. -/
inductive Worded : List Char → List Word → Prop
  | nil : Worded [] []
  | cons {kind : Token.Kind} {gap word more : List Char} {words : List Word}
      (blank : ∀ c ∈ gap, isBlank c = true) (is_word : IsWord kind word) (line : kind ≠ .comment)
      (read : Lexeme.read none (word ++ more) = .token kind word.length) (rest : Worded more words) :
      Worded (gap ++ (word ++ more)) ((kind, String.ofList word) :: words)

/-- A run over blanks and a word: the token of the word, and then the run over the rest. -/
theorem onward_word (blank : ∀ c ∈ gap, isBlank c = true) (is_word : IsWord kind word)
    (read : Lexeme.read none (word ++ more) = .token kind word.length) :
    let start := here.after gap
    let stop := start.after word
    (onward name none none here (gap ++ (word ++ more))).errors =
        (onward name none none stop more).errors ∧
      (onward name none none here (gap ++ (word ++ more))).tokens =
        ⟨kind, String.ofList word, start, stop⟩ :: (onward name none none stop more).tokens := by
  intro start stop
  have begins := head?_word is_word
  have gap_eq : (gap ++ (word ++ more)).takeWhile isBlank = gap := by
    rw [List.takeWhile_append_of_pos blank]
    cases word with
    | nil => cases begins
    | cons c rest =>
      have other : isBlank c = false := by simpa using begins
      simp [other]
  have going : kind ≠ .eof := by
    rintro rfl
    cases is_word with
    | spelled some => exact some rfl
  have step := @onward_of_token name none none here _ gap _ kind _ gap_eq List.drop_left read
  simp only [reduceCtorEq, if_false, going, List.take_left, List.drop_left, Option.map_none] at step
  rw [step]
  exact ⟨rfl, rfl⟩

/-- A run over words comes to these words and the end. -/
theorem Worded.onward {text : List Char} {words : List Word} (h : Worded text words)
    (here : Position) :
    (onward name none none here text).errors = [] ∧
      (onward name none none here text).tokens.map Token.word = words ++ [(.eof, "")] := by
  induction h generalizing here with
  | nil =>
    rw [onward_nil]
    exact ⟨rfl, rfl⟩
  | @cons kind gap word more words blank is_word line read rest ih =>
    obtain ⟨errors, tokens⟩ := @onward_word name here kind gap word more blank is_word read
    obtain ⟨no_errors, words_eq⟩ := ih ((here.after gap).after word)
    refine ⟨errors.trans no_errors, ?_⟩
    rw [tokens, List.map_cons, words_eq]
    rfl

theorem Worded.not_comment {text : List Char} {words : List Word} (h : Worded text words) :
    ∀ w ∈ words, w.1 ≠ .comment := by
  induction h with
  | nil => exact List.forall_mem_nil _
  | cons _ _ line _ _ ih => exact List.forall_mem_cons.mpr ⟨line, ih⟩

/-- A source of words is scanned without an error into these words and the end. -/
theorem Worded.spelling {source : Source} {text : String} {words : List Word}
    (h : Worded text.toList words) (code : source.code = Utf8.ofString text) :
    ((scan source).tokens.filter (·.kind != .comment)).map Token.word = words ++ [(.eof, "")] := by
  have read : Utf8.readable source.code = (text.toList, none) := by
    rw [code, Utf8.ofString, Utf8.readable_encode]
  have tokens : (scan source).tokens.map Token.word = words ++ [(.eof, "")] := by
    have ran := (@Worded.onward source.name _ _ h .start).2
    simpa [scan, run, read] using ran
  have all : ∀ t ∈ (scan source).tokens, (t.kind != .comment) = true := by
    intro t mem
    have word := List.mem_map_of_mem (f := Token.word) mem
    rw [tokens] at word
    obtain word | last := List.mem_append.mp word
    · exact bne_iff_ne.mpr (h.not_comment _ word)
    · have eof : t.kind = .eof := congrArg Prod.fst (List.mem_singleton.mp last)
      rw [eof]
      rfl
  rw [List.filter_eq_self.mpr all, tokens]

/-- Words with a space in front of each of them. -/
def spaced (words : List Word) : List Char := words.flatMap fun w => ' ' :: w.2.toList

theorem opensIn_spaced (words : List Word) : OpensIn [' '] (spaced words) := by
  cases words with
  | nil => exact opensIn_nil
  | cons w words => exact opensIn_cons (List.mem_singleton_self _)

/-- Words with spaces between them are the first one and then the others, a space in front of
each. -/
theorem intercalate_eq (w : Word) (words : List Word) :
    [' '].intercalate ((w :: words).map (·.2.toList)) = w.2.toList ++ spaced words := by
  induction words generalizing w with
  | nil => simp [spaced]
  | cons v words ih =>
    have rest : [' '].intercalate (v.2.toList :: words.map (·.2.toList)) =
        v.2.toList ++ spaced words := ih v
    simp [spaced, List.intercalate_cons_cons, rest]

/-- A word and others with a space in front of each come apart again. -/
theorem worded_spaced {w : Word} {words : List Word}
    (good : ∀ v ∈ w :: words, v.1 ≠ .comment ∧ IsWord v.1 v.2.toList)
    (blank : ∀ c ∈ gap, isBlank c = true) :
    Worded (gap ++ (w.2.toList ++ spaced words)) (w :: words) := by
  induction words generalizing w gap with
  | nil =>
    obtain ⟨line, is_word⟩ := good w List.mem_cons_self
    have ends := Worded.cons blank is_word line (read_word_append is_word line opensIn_nil) .nil
    rwa [String.ofList_toList] at ends
  | cons v words ih =>
    obtain ⟨⟨line, is_word⟩, good⟩ := List.forall_mem_cons.mp good
    have space : ∀ c ∈ [' '], isBlank c = true := List.forall_mem_singleton.mpr rfl
    have goes_on := Worded.cons blank is_word line
      (read_word_append is_word line (opensIn_spaced (v :: words))) (ih good space)
    rwa [String.ofList_toList] at goes_on

/-- A run over a word and others with a space in front of each comes to these words and the end. -/
theorem onward_words {w : Word} {words : List Word}
    (good : ∀ v ∈ w :: words, v.1 ≠ .comment ∧ IsWord v.1 v.2.toList)
    (blank : ∀ c ∈ gap, isBlank c = true) (here : Position) :
    let outcome := onward name none none here (gap ++ (w.2.toList ++ spaced words))
    outcome.errors = [] ∧ outcome.tokens.map Token.word = w :: words ++ [(.eof, "")] :=
  (worded_spaced good blank).onward here

end Scan

/-- The source made of words of the language with single spaces between them is scanned without an
error into exactly these words, in order, and the end. Comments are left out. -/
theorem scan_words (source : Source) (words : List Word)
    (good : ∀ w ∈ words, w.1 ≠ .comment ∧ Lexicon.IsWord w.1 w.2.toList)
    (code : source.code = Utf8.ofString (" ".intercalate (words.map (·.2)))) :
    (scan source).errors = [] ∧
      (scan source).tokens.map Token.word = words ++ [(.eof, "")] := by
  have text_eq : (" ".intercalate (words.map (·.2))).toList =
      [' '].intercalate (words.map (·.2.toList)) := by simp [Function.comp_def]
  have read : Utf8.readable source.code = ([' '].intercalate (words.map (·.2.toList)), none) := by
    rw [code, Utf8.ofString, text_eq, Utf8.readable_encode]
  have scan_eq : (scan source).errors = (Scan.onward source.name none none .start
        ([' '].intercalate (words.map (·.2.toList)))).errors ∧
      (scan source).tokens = (Scan.onward source.name none none .start
        ([' '].intercalate (words.map (·.2.toList)))).tokens := by
    simp [scan, Scan.run, read]
  rw [scan_eq.1, scan_eq.2]
  cases words with
  | nil =>
    rw [List.map_nil, List.intercalate_nil, Scan.onward_nil]
    exact ⟨rfl, rfl⟩
  | cons w words =>
    rw [Scan.intercalate_eq]
    have none : ∀ c ∈ [], Lexeme.isBlank c = true := fun c mem => absurd mem List.not_mem_nil
    exact @Scan.onward_words source.name [] w words good none .start

/-- Words whose beginnings are those of longer words, and a string with a space inside. -/
theorem scan_words_beginnings :
    let words : List Word := [(.int, "0"), (.dot, "."), (.float, "1."), (.ellipsis, "..."),
      (.uint, "0b1u"), (.newline, "\n"), (.ident, "'in"), (.string, "\" \\\"\"")]
    let source : Source := .inMemory "a" (Utf8.ofString (" ".intercalate (words.map (·.2))))
    (∀ w ∈ words, w.1 ≠ .comment ∧ Lexicon.IsWord w.1 w.2.toList) ∧
      source.code = Utf8.ofString (" ".intercalate (words.map (·.2))) ∧
      (scan source).errors = [] ∧
      (scan source).tokens.map Token.word = words ++ [(.eof, "")] := by
  intro words source
  have good : ∀ w ∈ words, w.1 ≠ .comment ∧ Lexicon.IsWord w.1 w.2.toList := by
    have digit (d : Char) (h : d.isDigit = true) : Lexicon.Digits Char.isDigit [d] :=
      ⟨List.cons_ne_nil _ _, List.forall_mem_singleton.mpr h⟩
    have binary : Lexicon.Digits Lexeme.isBinaryDigit ['1'] :=
      ⟨List.cons_ne_nil _ _, List.forall_mem_singleton.mpr rfl⟩
    have name : Lexicon.Name ['i', 'n'] := .intro (by decide) (List.forall_mem_singleton.mpr rfl)
    have inner : Lexicon.Inner [' ', '\\', '"'] := .plain (by decide) (.escape .nil)
    simp only [words, List.forall_mem_cons]
    refine ⟨⟨nofun, .int (.decimal (digit '0' rfl))⟩, ⟨nofun, .spelled (by decide)⟩,
      ⟨nofun, .float (.point (digit '1' rfl) (fun _ mem => absurd mem List.not_mem_nil))⟩,
      ⟨nofun, .spelled (by decide)⟩, ⟨nofun, .uint (.binary (.inl rfl) binary)⟩,
      ⟨nofun, .spelled (by decide)⟩, ⟨nofun, .typeVariable name⟩,
      ⟨nofun, .string inner⟩, List.forall_mem_nil _⟩
  exact ⟨good, rfl, scan_words source words good rfl⟩

end Frontend
