import Frontend.Unicode.Range

/-!
Blank characters: those with the Unicode property White_Space.
-/
namespace Frontend.Unicode

/-- The White_Space characters, as ascending ranges. -/
def whitespaceRanges : List (Nat × Nat) :=
  [(0x9, 0xd), (0x20, 0x20), (0x85, 0x85), (0xa0, 0xa0), (0x1680, 0x1680), (0x2000, 0x200a),
   (0x2028, 0x2029), (0x202f, 0x202f), (0x205f, 0x205f), (0x3000, 0x3000)]

/-- A character that takes up room and shows nothing. -/
def isWhitespace (c : Char) : Bool :=
  inRanges whitespaceRanges c.toNat

/-- A text without the white space at its two ends. -/
def trim (text : List Char) : List Char :=
  ((text.dropWhile isWhitespace).reverse.dropWhile isWhitespace).reverse

end Frontend.Unicode
