/-!
UTF-8 texts as byte lists, which need not be well formed. `readable` cuts a byte list at its first
ill-formed sequence, `decodeLossy` reads on with a replacement character for each maximal part of
a sequence that never gets completed, and `encode` is the way back.
-/
namespace Frontend.Utf8

/-- The bytes of a text. -/
def encode (text : List Char) : List UInt8 :=
  text.flatMap String.utf8EncodeChar

/-- The character that a byte list begins with, if it begins with a well-formed sequence. A
sequence has at most four bytes. -/
def decodeHead (bytes : List UInt8) : Option Char :=
  (bytes.take 4).toByteArray.utf8DecodeChar? 0

/-- For a leading byte, the ranges of the bytes that must follow it; nothing for a byte that leads
no sequence. Ranges narrower than 80–BF rule out long forms, surrogates and values past 10FFFF. -/
def followers (lead : UInt8) : Option (List (UInt8 × UInt8)) :=
  if lead < 0x80 then some []
  else if lead < 0xc2 then none
  else if lead < 0xe0 then some [(0x80, 0xbf)]
  else if lead = 0xe0 then some [(0xa0, 0xbf), (0x80, 0xbf)]
  else if lead = 0xed then some [(0x80, 0x9f), (0x80, 0xbf)]
  else if lead < 0xf0 then some [(0x80, 0xbf), (0x80, 0xbf)]
  else if lead = 0xf0 then some [(0x90, 0xbf), (0x80, 0xbf), (0x80, 0xbf)]
  else if lead < 0xf4 then some [(0x80, 0xbf), (0x80, 0xbf), (0x80, 0xbf)]
  else if lead = 0xf4 then some [(0x80, 0x8f), (0x80, 0xbf), (0x80, 0xbf)]
  else none

/-- How many bytes at the head of a list lie in the ranges given for them. -/
def matching : List (UInt8 × UInt8) → List UInt8 → Nat
  | (low, high) :: ranges, b :: bytes =>
    if low ≤ b && b ≤ high then 1 + matching ranges bytes else 0
  | _, _ => 0

/-- The size of the ill-formed sequence that starts with `lead`: the leading byte and those after
it that still fit a well-formed sequence. -/
def malformedSize (lead : UInt8) (rest : List UInt8) : Nat :=
  1 + ((followers lead).elim 0 fun ranges => matching ranges rest)

/-- Stands for an ill-formed sequence. -/
def replacement : Char := '\ufffd'

/-- The text of a byte list, with one replacement character for each ill-formed sequence. -/
def decodeLossy (bytes : List UInt8) : List Char :=
  match bytes with
  | [] => []
  | b :: rest =>
    match decodeHead (b :: rest) with
    | some c => c :: decodeLossy (rest.drop (c.utf8Size - 1))
    | none => replacement :: decodeLossy (rest.drop (malformedSize b rest - 1))
termination_by bytes.length
decreasing_by all_goals (simp only [List.length_drop, List.length_cons]; omega)

/-- The text before the first ill-formed sequence, and the byte that leads that sequence. -/
def readable (bytes : List UInt8) : List Char × Option UInt8 :=
  match bytes with
  | [] => ([], none)
  | b :: rest =>
    match decodeHead (b :: rest) with
    | some c =>
      let (text, stop) := readable (rest.drop (c.utf8Size - 1))
      (c :: text, stop)
    | none => ([], some b)
termination_by bytes.length
decreasing_by simp only [List.length_drop, List.length_cons]; omega

/-- The bytes of a string. -/
def ofString (s : String) : List UInt8 := encode s.toList

/-- The string of a byte list, decoded as by `decodeLossy`. -/
def toStringLossy (bytes : List UInt8) : String := String.ofList (decodeLossy bytes)

end Frontend.Utf8
