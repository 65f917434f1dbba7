import Adql.Double

/-!
# The nearest double

A decimal number is a coefficient times a power of ten.  `nearest` gives the double that lies
nearest to it; of two equally near doubles the one with the even mantissa is taken, and a number
beyond the largest double becomes infinite.  All steps are exact: they work on natural numbers
and build the sixty-four bits of the result.
-/

namespace Adql.Decimal

open Adql.Double

/-- The natural number nearest to a quotient; halves go to the even neighbour. -/
def roundHalfEven (numerator denominator : Nat) : Nat :=
  let whole := numerator / denominator
  let twice := 2 * (numerator % denominator)
  if twice < denominator then whole
  else if denominator < twice then whole + 1
  else if whole % 2 = 0 then whole
  else whole + 1

/-- The bits of the double nearest to a positive quotient, infinity included.

The unit in the last place is `2 ^ unit`, chosen so that the quotient has fifty-three binary
places, or the smallest unit there is.  Counting units from the smallest one makes the bits of
neighbouring doubles neighbouring numbers, so a carry out of the mantissa needs no care. -/
def nearestBits (numerator denominator : Nat) : Nat :=
  let guess : Int := numerator.log2 - denominator.log2
  let scaled (unit : Int) : Nat × Nat :=
    (numerator <<< (-unit).toNat, denominator <<< unit.toNat)
  let (top, bottom) := scaled guess
  let unit := max (if top < bottom then guess - 53 else guess - 52) (-1074)
  let (top, bottom) := scaled unit
  min infinity.bits.toNat ((unit + 1074).toNat * leadingBit + roundHalfEven top bottom)

/-- The double nearest to `coefficient * 10 ^ exponent`. -/
def nearest (coefficient : Nat) (exponent : Int) : Double :=
  if coefficient = 0 then ⟨0⟩
  else if 400 < exponent then infinity
  else if exponent + coefficient.log2 + 1 < -400 then ⟨0⟩
  else
    let bits := nearestBits (coefficient * Nat.pow 10 exponent.toNat) (Nat.pow 10 (-exponent).toNat)
    ⟨bits.toUInt64⟩

/-- The double nearest to an integer. -/
def nearestToInteger (value : Int) : Double :=
  let magnitude := nearest value.natAbs 0
  if value < 0 then -magnitude else magnitude

end Adql.Decimal
