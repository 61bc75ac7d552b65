import Frontend.Token.Basic
import Frontend.Unicode.Alphabetic
import Frontend.Unicode.Numeric
import Frontend.Unicode.Whitespace

/-!
One word at the head of a text. `Lexeme.read` says which kind of token the text begins with and how
many characters it takes, always the longest word that the grammar of words allows, or which fault
keeps it from having a first word. Positions play no part here; white space other than a newline
has been passed over before.
-/
namespace Frontend.Lexeme

open Token (Kind)

/-- What stands where something else was expected: a character, a byte that begins no well-formed
sequence, or nothing. -/
inductive Found where
  | char (c : Char)
  | byte (b : UInt8)
  | endOfText
deriving DecidableEq, Repr

/-- What is found behind a text that is cut off at `cut`. -/
def Found.at (cut : Option UInt8) : List Char → Found
  | c :: _ => .char c
  | [] => cut.elim .endOfText .byte

/-- The digits of a byte to the base 16. -/
def hexByte (b : UInt8) : String :=
  String.ofList [Nat.digitChar (b.toNat / 16), Nat.digitChar (b.toNat % 16)]

/-- What is found, as messages say it. -/
def Found.describe : Found → String
  | .char c => s!"'{c}'({c.toNat})"
  | .byte b => s!"invalid UTF-8 byte 0x{hexByte b}"
  | .endOfText => "EOF"

/-- What a word needs to go on. -/
inductive Expected where
  | second (c : Char)
  | identifierHead
  | hexDigit
  | binaryDigit
  | exponentDigit
deriving DecidableEq, Repr

/-- What a word needs, as messages say it. -/
def Expected.describe : Expected → String
  | .second c => s!"'{c}' for '{c}{c}'"
  | .identifierHead => "letter for head character of identifier"
  | .hexDigit => "hexadecimal digit for hex integer literal"
  | .binaryDigit => "binary digit (0 or 1) for binary integer literal"
  | .exponentDigit => "number for exponential part of float literal"

/-- Why a text has no first word. -/
inductive Fault where
  | expected (what : Expected) (found : Found)
  | malformed (b : UInt8)
  | unclosedString
deriving DecidableEq, Repr

/-- The message of a lexical error. -/
def Fault.message : Fault → String
  | .expected what found => s!"Expected {what.describe} but got {found.describe}"
  | .malformed b => s!"Invalid UTF-8 sequence starting with byte 0x{hexByte b}"
  | .unclosedString => "Unclosed string literal"

/-- The head of a text: a token or a fault, and the characters that it takes. -/
inductive Reading where
  | token (kind : Kind) (size : Nat)
  | fault (fault : Fault) (size : Nat)
deriving DecidableEq, Repr

/-- White space that stands between words. A newline is a word of its own. -/
def isBlank (c : Char) : Bool := Unicode.isWhitespace c && c != '\n'

/-- A character that can begin an identifier. -/
def isLetter (c : Char) : Bool := c = '_' || Unicode.isAlphabetic c

/-- A character that can continue an identifier. -/
def isIdentRest (c : Char) : Bool := isLetter c || Unicode.isNumeric c

/-- A digit to the base 16. -/
def isHexDigit (c : Char) : Bool :=
  c.isDigit || ('a' ≤ c && c ≤ 'f') || ('A' ≤ c && c ≤ 'F')

/-- A digit to the base 2. -/
def isBinaryDigit (c : Char) : Bool := c = '0' || c = '1'

/-- How many characters at the head of a text belong to a class. -/
def run (p : Char → Bool) (text : List Char) : Nat := (text.takeWhile p).length

/-- A character that is an operator or a bracket, with the operators of two characters that it
begins. -/
def operator? : Char → Option (Kind × List (Char × Kind))
  | '!' => some (.not, [('=', .notEqual)])
  | '=' => some (.assign, [('=', .equal), ('>', .fatArrow)])
  | ':' => some (.colon, [('=', .define), (':', .colonColon)])
  | '<' => some (.less, [('=', .lessEqual)])
  | '>' => some (.greater, [('=', .greaterEqual)])
  | '-' => some (.minus, [('>', .arrow)])
  | '.' => some (.dot, [])
  | '\n' => some (.newline, [])
  | ';' => some (.semicolon, [])
  | '(' => some (.lparen, [])
  | ')' => some (.rparen, [])
  | '{' => some (.lbrace, [])
  | '}' => some (.rbrace, [])
  | '[' => some (.lbracket, [])
  | ']' => some (.rbracket, [])
  | ',' => some (.comma, [])
  | '+' => some (.plus, [])
  | '*' => some (.star, [])
  | '/' => some (.div, [])
  | '%' => some (.percent, [])
  | _ => none

/-- An operator, of two characters where the second one allows it. -/
def readOperator (alone : Kind) (pairs : List (Char × Kind)) (rest : List Char) : Reading :=
  match rest.head?.bind fun d => pairs.lookup d with
  | some kind => .token kind 2
  | none => .token alone 1

/-- An operator that is a character written twice. -/
def readDoubled (cut : Option UInt8) (c : Char) (kind : Kind) (rest : List Char) : Reading :=
  if rest.head? = some c then .token kind 2
  else .fault (.expected (.second c) (.at cut rest)) 1

/-- The size of a string literal's text after the opening quote, up to and with the closing one.
A backslash keeps the character after it from closing the literal. -/
def stringRest : List Char → Option Nat
  | [] => none
  | ['\\'] => none
  | '\\' :: _ :: rest => (stringRest rest).map (· + 2)
  | '"' :: _ => some 1
  | _ :: rest => (stringRest rest).map (· + 1)

/-- A string literal, after its opening quote. An ill-formed sequence inside is reported as such,
from the quote on. -/
def readString (cut : Option UInt8) (rest : List Char) : Reading :=
  match stringRest rest, cut with
  | some size, _ => .token .string (1 + size)
  | none, some b => .fault (.malformed b) (1 + rest.length)
  | none, none => .fault .unclosedString (1 + rest.length)

/-- An identifier or a reserved word. A word that `taken` characters stand before is a type
variable and never reserved. -/
def readIdent (cut : Option UInt8) (taken : Nat) (text : List Char) : Reading :=
  match text with
  | c :: rest =>
    if isLetter c then
      let size := 1 + run isIdentRest rest
      let kind := if taken = 0
        then (Kind.ofKeyword? (String.ofList (text.take size))).getD .ident else .ident
      .token kind (taken + size)
    else .fault (.expected .identifierHead (.char c)) taken
  | [] => .fault (.expected .identifierHead (.at cut [])) taken

/-- The mark of a radix, with its digits and what is said when they are missing. -/
def radix? : Char → Option ((Char → Bool) × Expected)
  | 'x' | 'X' => some (isHexDigit, .hexDigit)
  | 'b' | 'B' => some (isBinaryDigit, .binaryDigit)
  | _ => none

/-- An integer after a radix mark. A decimal digit right behind its digits is a fault. -/
def readRadix (cut : Option UInt8) (isDigit : Char → Bool) (what : Expected) (rest : List Char) :
    Reading :=
  let size := run isDigit rest
  let after := rest.drop size
  if size = 0 ∨ after.head?.any Char.isDigit then .fault (.expected what (.at cut after)) (2 + size)
  else if after.head? = some 'u' then .token .uint (3 + size)
  else .token .int (2 + size)

/-- The size of a fraction: a point and digits, but no point that begins an ellipsis. -/
def fraction : List Char → Nat
  | '.' :: '.' :: '.' :: _ => 0
  | '.' :: rest => 1 + run Char.isDigit rest
  | _ => 0

/-- The size of the mark and sign of an exponent; zero where there is none. -/
def exponentMark : List Char → Nat
  | e :: rest =>
    if e = 'e' ∨ e = 'E' then
      match rest with
      | s :: _ => if s = '+' ∨ s = '-' then 2 else 1
      | [] => 1
    else 0
  | [] => 0

/-- A number that begins with a decimal digit and no radix mark. -/
def readDecimal (cut : Option UInt8) (text : List Char) : Reading :=
  let whole := run Char.isDigit text
  let size := whole + fraction (text.drop whole)
  let mark := exponentMark (text.drop size)
  let after := text.drop (size + mark)
  let digits := run Char.isDigit after
  if mark ≠ 0 then
    if digits = 0 then .fault (.expected .exponentDigit (.at cut after)) (size + mark)
    else .token .float (size + mark + digits)
  else if size ≠ whole then .token .float size
  else if after.head? = some 'u' then .token .uint (size + 1)
  else .token .int size

/-- A number. -/
def readNumber (cut : Option UInt8) (text : List Char) : Reading :=
  match text with
  | '0' :: mark :: rest =>
    match radix? mark with
    | some (isDigit, what) => readRadix cut isDigit what rest
    | none => readDecimal cut text
  | _ => readDecimal cut text

/-- The first word of a text that begins with no blank and is cut off at `cut`. -/
def read (cut : Option UInt8) (text : List Char) : Reading :=
  match text with
  | [] => cut.elim (.token .eof 0) fun b => .fault (.malformed b) 0
  | '!' :: '!' :: rest => .token .comment (2 + run (· != '\n') rest)
  | '.' :: '.' :: '.' :: _ => .token .ellipsis 3
  | '"' :: rest => readString cut rest
  | '\'' :: rest => readIdent cut 1 rest
  | '|' :: rest => readDoubled cut '|' .or rest
  | '&' :: rest => readDoubled cut '&' .and rest
  | c :: rest =>
    match operator? c with
    | some (alone, pairs) => readOperator alone pairs rest
    | none => if c.isDigit then readNumber cut text else readIdent cut 0 text

theorem readOperator_size {alone : Kind} {pairs : List (Char × Kind)} {rest : List Char}
    {kind : Kind} {size : Nat} (h : readOperator alone pairs rest = .token kind size) :
    0 < size := by
  unfold readOperator at h
  split at h <;> cases h <;> decide

theorem readDoubled_size {cut : Option UInt8} {c : Char} {k : Kind} {rest : List Char}
    {kind : Kind} {size : Nat} (h : readDoubled cut c k rest = .token kind size) : 0 < size := by
  unfold readDoubled at h
  split at h <;> cases h
  decide

theorem readString_size {cut : Option UInt8} {rest : List Char} {kind : Kind} {size : Nat}
    (h : readString cut rest = .token kind size) : 0 < size := by
  unfold readString at h
  split at h <;> cases h
  omega

theorem readIdent_size {cut : Option UInt8} {taken : Nat} {text : List Char} {kind : Kind}
    {size : Nat} (h : readIdent cut taken text = .token kind size) : 0 < size := by
  unfold readIdent at h
  split at h
  · split at h <;> cases h
    omega
  · cases h

theorem readRadix_size {cut : Option UInt8} {p : Char → Bool} {what : Expected} {rest : List Char}
    {kind : Kind} {size : Nat} (h : readRadix cut p what rest = .token kind size) : 0 < size := by
  simp only [readRadix] at h
  split at h
  · cases h
  · split at h <;> cases h <;> omega

theorem readDecimal_size {cut : Option UInt8} {c : Char} {rest : List Char} {kind : Kind}
    {size : Nat} (hc : c.isDigit = true) (h : readDecimal cut (c :: rest) = .token kind size) :
    0 < size := by
  have digits : 0 < run Char.isDigit (c :: rest) := by simp [run, hc]
  simp only [readDecimal] at h
  split at h
  · split at h <;> cases h
    omega
  · split at h
    · cases h
      omega
    · split at h <;> cases h <;> omega

theorem readNumber_size {cut : Option UInt8} {c : Char} {rest : List Char} {kind : Kind}
    {size : Nat} (hc : c.isDigit = true) (h : readNumber cut (c :: rest) = .token kind size) :
    0 < size := by
  unfold readNumber at h
  split at h
  · split at h
    · exact readRadix_size h
    · exact readDecimal_size hc h
  · exact readDecimal_size hc h

/-- A word takes at least one character; only the end of the text is a token of none. -/
theorem read_size {cut : Option UInt8} {text : List Char} {kind : Kind} {size : Nat}
    (h : read cut text = .token kind size) : kind = .eof ∨ text ≠ [] ∧ 0 < size := by
  unfold read at h
  split at h
  · cases cut with
    | none => cases h; exact .inl rfl
    | some b => cases h
  · cases h; exact .inr ⟨by simp, by omega⟩
  · cases h; exact .inr ⟨by simp, by decide⟩
  · exact .inr ⟨by simp, readString_size h⟩
  · exact .inr ⟨by simp, readIdent_size h⟩
  · exact .inr ⟨by simp, readDoubled_size h⟩
  · exact .inr ⟨by simp, readDoubled_size h⟩
  · refine .inr ⟨by simp, ?_⟩
    split at h
    · exact readOperator_size h
    · split at h
      · exact readNumber_size ‹_› h
      · exact readIdent_size h

end Frontend.Lexeme
