import Frontend.Number.Binary64
import Frontend.Text.Utf8
import Frontend.Token.Basic
import Frontend.Tree.Basic

/-!
The values of literals. Numbers are read exactly and then have to fit their type; a string is read
unit by unit, a unit being a character or an escape, and each unit stands for bytes.
-/
namespace Frontend

/-- The value of a literal. -/
inductive Literal where
  | int (value : Int)
  | uint (value : Nat)
  | float (value : Binary64)
  | bool (value : Bool)
  | string (value : String)
deriving DecidableEq, Repr

namespace Literal

/-- Why a word is the literal of no value. -/
inductive Problem where
  | outOfRange
  | invalidSyntax
deriving DecidableEq, Repr

/-- What is wrong with a word, as messages say it. -/
def Problem.message : Problem → String
  | .outOfRange => "value out of range"
  | .invalidSyntax => "invalid syntax"

/-- The value of a digit to a base of at most 16. -/
def digit? (base : Nat) (c : Char) : Option Nat :=
  let value :=
    if c.isDigit then c.toNat - '0'.toNat
    else if 'a' ≤ c ∧ c ≤ 'f' then c.toNat - 'a'.toNat + 10
    else if 'A' ≤ c ∧ c ≤ 'F' then c.toNat - 'A'.toNat + 10
    else base
  if value < base then some value else none

/-- The number written with some digits; there must be digits only. -/
def ofDigits? (base : Nat) (digits : List Char) : Option Nat :=
  digits.foldlM (fun n c => (digit? base c).map (n * base + ·)) 0

/-- The end of the natural numbers of 64 bits. -/
def naturalLimit : Nat := Nat.pow 2 64

/-- A natural number of 64 bits with some digits. The first digit that is wrong or leads beyond
the limit decides what is wrong. -/
def boundedDigits (base : Nat) (digits : List Char) : Except Problem Nat :=
  if digits.isEmpty then .error .invalidSyntax
  else digits.foldlM (fun n c =>
    match digit? base c with
    | none => .error .invalidSyntax
    | some d => if n * base + d < naturalLimit then .ok (n * base + d) else .error .outOfRange) 0

/-- A natural number of 64 bits, to the base 16 after `0x`, to the base 2 after `0b`, and to the
base 10 otherwise. -/
def natural : List Char → Except Problem Nat
  | '0' :: 'x' :: digits | '0' :: 'X' :: digits => boundedDigits 16 digits
  | '0' :: 'b' :: digits | '0' :: 'B' :: digits => boundedDigits 2 digits
  | digits => boundedDigits 10 digits

/-- An integer of 64 bits, with the sign in front. -/
def integer (negative : Bool) (text : List Char) : Except Problem Int := do
  let n ← natural text
  if negative then
    if n ≤ Nat.pow 2 63 then .ok (-(n : Int)) else .error .outOfRange
  else if n < Nat.pow 2 63 then .ok n else .error .outOfRange

/-- A natural number of 64 bits, marked by a `u` behind its digits. -/
def unsigned (text : List Char) : Except Problem Nat :=
  natural (if text.getLast? = some 'u' then text.dropLast else text)

/-- An exponent that has come this far takes no more digits. So large an exponent decides alone what
becomes of a decimal, unless tens of thousands of digits stand before it. -/
def exponentLimit : Nat := Nat.pow 2 16

/-- The size of an exponent with some digits; there must be digits only. -/
def exponentSize? (digits : List Char) : Option Nat :=
  if digits.isEmpty then none
  else digits.foldlM (fun n c =>
    (digit? 10 c).map fun d => if n < exponentLimit then n * 10 + d else n) 0

/-- The exponent behind the mark of a decimal, which may have a sign. -/
def exponent? : List Char → Option Int
  | '-' :: digits => (exponentSize? digits).map fun n => -(n : Int)
  | '+' :: digits => (exponentSize? digits).map fun n => (n : Int)
  | digits => (exponentSize? digits).map fun n => (n : Int)

/-- The digits of a decimal without its point, and the power of ten that they count. -/
def decimal? (text : List Char) : Option (Nat × Int) := do
  let isMark (c : Char) : Bool := c = 'e' || c = 'E'
  let mantissa := text.takeWhile (!isMark ·)
  let exponent ← match text.drop mantissa.length with
    | [] => some 0
    | _ :: rest => exponent? rest
  let whole := mantissa.takeWhile (· != '.')
  let fraction := (mantissa.drop whole.length).drop 1
  if (whole ++ fraction).isEmpty then none
  else
    let digits ← ofDigits? 10 (whole ++ fraction)
    some (digits, exponent - fraction.length)

/-- A decimal as the nearest number of 64 bits, with the sign in front. -/
def decimal (negative : Bool) (text : List Char) : Except Problem Binary64 :=
  match decimal? text with
  | none => .error .invalidSyntax
  | some (digits, exponent) =>
    match Binary64.ofDecimal? digits exponent with
    | none => .error .outOfRange
    | some x => .ok (if negative then x.neg else x)

/-- The byte of an escape that is one character after the backslash. -/
def simpleEscape? : Char → Option UInt8
  | 'a' => some 0x07
  | 'b' => some 0x08
  | 'f' => some 0x0c
  | 'n' => some 0x0a
  | 'r' => some 0x0d
  | 't' => some 0x09
  | 'v' => some 0x0b
  | '\\' => some 0x5c
  | '"' => some 0x22
  | _ => none

/-- The number at the head of a text, written with exactly `size` digits. -/
def fixedDigits? (base size : Nat) (text : List Char) : Option Nat :=
  let digits := text.take size
  if digits.length = size then ofDigits? base digits else none

/-- The bytes of a code point; there are none for a surrogate or past the last code point. -/
def codePoint? (n : Nat) : Option (List UInt8) :=
  if n.isValidChar then some (Utf8.encode [Char.ofNat n]) else none

/-- The escape at the head of a text behind a backslash: its bytes, and how many characters it
takes. -/
def escape? (text : List Char) : Option (List UInt8 × Nat) := do
  let c ← text.head?
  match simpleEscape? c with
  | some b => some ([b], 1)
  | none =>
    if (digit? 8 c).isSome then
      let n ← fixedDigits? 8 3 text
      if n < 256 then some ([UInt8.ofNat n], 3) else none
    else if c = 'x' then
      let n ← fixedDigits? 16 2 (text.drop 1)
      some ([UInt8.ofNat n], 3)
    else if c = 'u' then
      let bytes ← codePoint? (← fixedDigits? 16 4 (text.drop 1))
      some (bytes, 5)
    else if c = 'U' then
      let bytes ← codePoint? (← fixedDigits? 16 8 (text.drop 1))
      some (bytes, 9)
    else none

/-- The bytes that the inner part of a string literal stands for. -/
def unescape? (text : List Char) : Option (List UInt8) :=
  match text with
  | [] => some []
  | c :: rest =>
    if c = '\\' then do
      let (bytes, size) ← escape? rest
      let more ← unescape? (rest.drop size)
      some (bytes ++ more)
    else (unescape? rest).map (Utf8.encode [c] ++ ·)
termination_by text.length
decreasing_by all_goals (simp only [List.length_drop, List.length_cons]; omega)

/-- The inner part of a quoted text. -/
def inner? : List Char → Option (List Char)
  | '"' :: rest => if rest.getLast? = some '"' then some rest.dropLast else none
  | _ => none

/-- The text of a string literal. Escapes denote bytes, which need not be well-formed UTF-8
together. -/
def unquote (text : List Char) : Except Problem String :=
  match (inner? text).bind unescape? with
  | some bytes => .ok (Utf8.toStringLossy bytes)
  | none => .error .invalidSyntax

/-- The value of a word of a kind, with or without a minus in front. -/
def read (kind : Token.Kind) (negative : Bool) (text : String) : Except Problem Literal :=
  match kind with
  | .int => (integer negative text.toList).map .int
  | .uint => (unsigned text.toList).map .uint
  | .float => (decimal negative text.toList).map .float
  | .string => (unquote text.toList).map .string
  | _ => .ok (.bool (text = "true"))

/-- The name of a kind of literal in messages. -/
def kindName : Token.Kind → String
  | .int => "integer"
  | .uint => "unsigned integer"
  | .float => "float"
  | .string => "string"
  | _ => "boolean"

/-- Words of such a kind are literals. -/
def isKind (k : Token.Kind) : Bool :=
  k = .int || k = .uint || k = .float || k = .bool || k = .string

/-- A literal as an expression. -/
def toExpr : Literal → ExprForm
  | int value => .int value
  | uint value => .uint value
  | float value => .float value
  | bool value => .bool value
  | string value => .string value

/-- A literal as a pattern. -/
def toPattern (span : Span) : Literal → Pattern
  | int value => .int span value
  | uint value => .uint span value
  | float value => .float span value
  | bool value => .bool span value
  | string value => .string span value

end Literal

end Frontend
