/-!
Finite binary floating-point numbers of 64 bits, as a sign and an exact dyadic magnitude. A decimal
is read as the nearest such number, ties going to the even significand.
-/
namespace Frontend

/-- A finite number: `significand · 2 ^ exponent`, with a sign also for zero. -/
structure Binary64 where
  negative : Bool
  significand : Nat
  exponent : Int
deriving DecidableEq, Repr, Inhabited

namespace Binary64

/-- The least exponent, of the smallest numbers. -/
def leastExponent : Int := -1074

/-- The greatest exponent. -/
def greatestExponent : Int := 971

/-- The significands of normal numbers end before this one. -/
def significandLimit : Nat := Nat.pow 2 53

/-- Zero without a sign. -/
def zero : Binary64 := ⟨false, 0, leastExponent⟩

/-- The number with the other sign. -/
def neg (x : Binary64) : Binary64 := { x with negative := !x.negative }

/-- A power with an exponent of either sign, as a ratio. -/
def powerRatio (base : Nat) (exponent : Int) : Nat × Nat :=
  (base.pow exponent.toNat, base.pow (-exponent).toNat)

/-- The integer nearest to a ratio; of two the even one. -/
def roundHalfEven (num den : Nat) : Nat :=
  let whole := num / den
  let rest := num % den
  if 2 * rest < den ∨ 2 * rest = den ∧ whole % 2 = 0 then whole else whole + 1

/-- The number nearest to a positive ratio, unless that is too large for one. -/
def ofRatio? (num den : Nat) : Option Binary64 :=
  let guess := max ((num.log2 : Int) - den.log2 - 53) leastExponent
  let quotient (q : Int) : Nat × Nat :=
    let (up, down) := powerRatio 2 q
    (num * down, den * up)
  let (n, d) := quotient guess
  let exponent := if n / d < significandLimit then guess else guess + 1
  let (n, d) := quotient exponent
  let rounded := roundHalfEven n d
  let (significand, exponent) :=
    if rounded = significandLimit then (significandLimit / 2, exponent + 1) else (rounded, exponent)
  if exponent > greatestExponent then none else some ⟨false, significand, exponent⟩

/-- The number nearest to `digits · 10 ^ exponent`, unless that is too large for one. Far outside
the range of these numbers the answer is known without any arithmetic. -/
def ofDecimal? (digits : Nat) (exponent : Int) : Option Binary64 :=
  let magnitude := (Nat.toDigits 10 digits).length + exponent
  if digits = 0 ∨ magnitude < -330 then some zero
  else if magnitude > 310 then none
  else
    let (up, down) := powerRatio 10 exponent
    ofRatio? (digits * up) down

end Binary64

end Frontend
