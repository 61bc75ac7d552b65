import Frontend.Number.Binary64

/-!
Decimal texts of binary floating-point numbers. The digits are the fewest that read back as the
same number, and of these the nearest to it; how they are laid out is a choice of the output format
and is kept apart from them.
-/
namespace Frontend.Binary64

/-- A positive decimal: its digits, the first one before the point, and the power of ten. -/
structure Scientific where
  digits : List Char
  exponent : Int
deriving DecidableEq, Repr

/-- The bounds of the reals that round to `significand · 2 ^ exponent`, and the number between
them, all in quarters of the last place. Below a power of two the next number is half as far. -/
def rounding (significand : Nat) (exponent : Int) : Nat × Nat × Nat :=
  let low := if significand = significandLimit / 2 ∧ exponent > leastExponent then 1 else 2
  (4 * significand - low, 4 * significand, 4 * significand + 2)

/-- The power of ten of the first digit of a positive ratio. -/
def decimalExponent (num den : Nat) : Int :=
  let guess : Int := (Nat.toDigits 10 num).length - (Nat.toDigits 10 den).length
  let (up, down) := powerRatio 10 guess
  if den * up ≤ num * down then guess else guess - 1

/-- The decimal `count · 10 ^ power` in scientific form. -/
def scientific (count : Nat) (power : Int) : Scientific :=
  let digits := Nat.toDigits 10 count
  ⟨(digits.reverse.dropWhile (· = '0')).reverse, digits.length - 1 + power⟩

/-- The multiple of `10 ^ power` that reads back as the number and is nearest to it, if one does.
Of two equally near ones it is the greater. -/
def onGrid? (significand : Nat) (exponent power : Int) (bounds : Nat × Nat × Nat) :
    Option Scientific :=
  let (low, value, high) := bounds
  let (up, down) := powerRatio 2 (exponent - 2)
  let (coarse, fine) := powerRatio 10 power
  let scale := up * fine
  let step := down * coarse
  let holds (count : Nat) : Bool :=
    if significand % 2 = 0 then low * scale ≤ count * step && count * step ≤ high * scale
    else low * scale < count * step && count * step < high * scale
  let below := value * scale / step
  let nearer := if 2 * value * scale < (2 * below + 1) * step then below else below + 1
  if holds below && holds (below + 1) then some (scientific nearer power)
  else if holds below then some (scientific below power)
  else if holds (below + 1) then some (scientific (below + 1) power)
  else none

/-- The decimal that equals a positive number. -/
def exact (significand : Nat) (exponent : Int) : Scientific :=
  if exponent < 0 then scientific (significand * Nat.pow 5 (-exponent).toNat) exponent
  else scientific (significand * Nat.pow 2 exponent.toNat) 0

/-- The shortest decimal that reads back as a positive number: the first grid with a hit, from one
digit on. Seventeen digits always suffice. -/
def shortest (significand : Nat) (exponent : Int) : Scientific :=
  let bounds := rounding significand exponent
  let (up, down) := powerRatio 2 exponent
  let top := decimalExponent (significand * up) down
  let hits := (List.range 17).findSome? fun (n : Nat) =>
    onGrid? significand exponent (top - n) bounds
  hits.getD (exact significand exponent)

/-- Which powers of ten of the first digit are written without an exponent. -/
structure Layout where
  leastPositional : Int
  greatestPositional : Int

/-- Numbers from a ten-thousandth up to ten quadrillion are written without an exponent. -/
def Layout.listing : Layout := ⟨-4, 15⟩

/-- A decimal without an exponent. At least one digit follows the point. -/
def positional (s : Scientific) : List Char :=
  if s.exponent < 0 then
    '0' :: '.' :: (List.replicate ((-s.exponent).toNat - 1) '0' ++ s.digits)
  else
    let size := s.exponent.toNat + 1
    let whole := s.digits.take size ++ List.replicate (size - s.digits.length) '0'
    let rest := s.digits.drop size
    whole ++ '.' :: (if rest.isEmpty then ['0'] else rest)

/-- A decimal with an exponent. A single digit takes no point. -/
def exponential (s : Scientific) : List Char :=
  let mantissa := match s.digits with
    | d :: rest => if rest.isEmpty then [d] else d :: '.' :: rest
    | [] => ['0']
  mantissa ++ 'e' :: (toString s.exponent).toList

/-- The text of a number. -/
def render (x : Binary64) (layout : Layout) : String :=
  let magnitude := if x.significand = 0 then ['0', '.', '0'] else
    let s := shortest x.significand x.exponent
    if layout.leastPositional ≤ s.exponent ∧ s.exponent ≤ layout.greatestPositional
    then positional s else exponential s
  String.ofList (if x.negative then '-' :: magnitude else magnitude)

end Frontend.Binary64
