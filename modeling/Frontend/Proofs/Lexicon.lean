import Frontend.Proofs.Spelling
import Frontend.Token.Lexeme

/-!
The words of the language, kind by kind. Nothing here says how a text is taken apart: a kind has
words, a text is one of them or not, and words of one kind may begin words of another.
-/
namespace Frontend.Lexicon

open Lexeme
open Token (Kind)

/-- One or more characters of a class. -/
def Digits (p : Char → Bool) (text : List Char) : Prop := text ≠ [] ∧ ∀ c ∈ text, p c = true

/-- A whole number: decimal digits, or digits to the base 16 or 2 behind the mark of the base. -/
inductive Whole : List Char → Prop
  | decimal {digits : List Char} (some : Digits Char.isDigit digits) : Whole digits
  | hex {mark : Char} {digits : List Char} (marked : mark = 'x' ∨ mark = 'X')
      (some : Digits isHexDigit digits) : Whole ('0' :: mark :: digits)
  | binary {mark : Char} {digits : List Char} (marked : mark = 'b' ∨ mark = 'B')
      (some : Digits isBinaryDigit digits) : Whole ('0' :: mark :: digits)

/-- The exponent of a decimal, which may have a sign. -/
inductive Exponent : List Char → Prop
  | unsigned {mark : Char} {digits : List Char} (marked : mark = 'e' ∨ mark = 'E')
      (some : Digits Char.isDigit digits) : Exponent (mark :: digits)
  | signed {mark sign : Char} {digits : List Char} (marked : mark = 'e' ∨ mark = 'E')
      (sign_eq : sign = '+' ∨ sign = '-') (some : Digits Char.isDigit digits) :
      Exponent (mark :: sign :: digits)

/-- A decimal: digits with a point behind them, or with an exponent, or with both. -/
inductive Decimal : List Char → Prop
  | point {whole fraction : List Char} (some : Digits Char.isDigit whole)
      (digits : ∀ c ∈ fraction, c.isDigit = true) : Decimal (whole ++ '.' :: fraction)
  | both {whole fraction exponent : List Char} (some : Digits Char.isDigit whole)
      (digits : ∀ c ∈ fraction, c.isDigit = true) (scaled : Exponent exponent) :
      Decimal (whole ++ '.' :: (fraction ++ exponent))
  | exponent {whole exponent : List Char} (some : Digits Char.isDigit whole)
      (scaled : Exponent exponent) : Decimal (whole ++ exponent)

/-- What may stand between the quotes of a string. A backslash takes any character with it. -/
inductive Inner : List Char → Prop
  | nil : Inner []
  | plain {c : Char} {text : List Char} (free : c ≠ '"' ∧ c ≠ '\\') (more : Inner text) :
      Inner (c :: text)
  | escape {c : Char} {text : List Char} (more : Inner text) : Inner ('\\' :: c :: text)

/-- A letter or an underscore, and then letters, numerals and underscores. -/
inductive Name : List Char → Prop
  | intro {c : Char} {text : List Char} (letter : isLetter c = true)
      (rest : ∀ d ∈ text, isIdentRest d = true) : Name (c :: text)

/-- A text is a word of a kind. Kinds that end a stream have no words. -/
inductive IsWord : Kind → List Char → Prop
  | int {text : List Char} (whole : Whole text) : IsWord .int text
  | uint {text : List Char} (whole : Whole text) : IsWord .uint (text ++ ['u'])
  | float {text : List Char} (decimal : Decimal text) : IsWord .float text
  | string {text : List Char} (inner : Inner text) : IsWord .string ('"' :: (text ++ ['"']))
  | ident {text : List Char} (name : Name text)
      (free : Kind.ofKeyword? (String.ofList text) = none) : IsWord .ident text
  | typeVariable {text : List Char} (name : Name text) : IsWord .ident ('\'' :: text)
  | comment {text : List Char} (line : '\n' ∉ text) : IsWord .comment ('!' :: '!' :: text)
  | bool (value : Bool) : IsWord .bool (toString value).toList
  | spelled {kind : Kind} (only : kind.spelling ≠ "") : IsWord kind kind.spelling.toList

theorem Name.forall_mem {text : List Char} (h : Name text) : ∀ c ∈ text, isIdentRest c = true := by
  obtain ⟨letter, rest⟩ := h
  exact List.forall_mem_cons.mpr ⟨by simp [isIdentRest, letter], rest⟩

/-- The characters of an identifier, which may begin with an apostrophe. -/
theorem IsWord.forall_mem_ident {text : List Char} (h : IsWord .ident text) :
    ∀ c ∈ text, isIdentRest c = true ∨ c = '\'' := by
  generalize kind_eq : Kind.ident = kind at h
  cases h with
  | ident name free => exact fun c mem => .inl (name.forall_mem c mem)
  | typeVariable name =>
    exact List.forall_mem_cons.mpr ⟨.inr rfl, fun c mem => .inl (name.forall_mem c mem)⟩
  | spelled only =>
    subst kind_eq
    exact absurd rfl only
  | _ => cases kind_eq

theorem IsWord.isTerminal {kind : Kind} {text : List Char} (h : IsWord kind text) :
    kind.isTerminal = false := by
  cases h with
  | spelled only => cases kind <;> first | rfl | exact absurd rfl only
  | _ => rfl

end Frontend.Lexicon
