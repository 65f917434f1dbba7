import Adql.Double

/-!
# The fewest digits that read back

A finite double is `mantissa * 2 ^ exponent`.  Every real number that lies nearer to it than to
its neighbours reads back to it; so do the two ends of that interval when the mantissa is even,
because ties go to the even mantissa.  `shortest` finds a decimal number with the fewest digits in
the interval and, of those, the one nearest to the double.

For each number of digits it suffices to look at the two neighbours of the double on the grid of
decimal numbers with so many digits: if any point of the grid lies in the interval, so does one of
the two.
-/

namespace Adql.Decimal

/-- A finite positive double as an integer times a power of two. -/
structure Binary where
  /-- The integer. -/
  mantissa : Nat
  /-- The power of two. -/
  exponent : Int
  /-- Is the gap to the next smaller double half of the gap to the next larger one? -/
  narrowBelow : Bool

/-- What a double stands for, the sign apart. -/
inductive Magnitude
  | notANumber
  | infinite
  | zero
  | finite (value : Binary)

/-- Reads the exponent and the fraction of a double. -/
def magnitude (x : Double) : Magnitude :=
  if x.exponent = 2047 then
    if x.fraction = 0 then .infinite else .notANumber
  else if x.exponent = 0 then
    if x.fraction = 0 then .zero else .finite ⟨x.fraction, -1074, false⟩
  else
    .finite ⟨x.fraction + Double.leadingBit, (x.exponent : Int) - 1075,
      x.fraction = 0 ∧ 1 < x.exponent⟩

/-- Which of two equally near decimal numbers is taken. -/
inductive Tie
  | up
  | even

/-- A decimal number: an integer times a power of ten. -/
structure Digits where
  /-- The integer. -/
  coefficient : Nat
  /-- The power of ten. -/
  exponent : Int

/-- The number of decimal digits of a positive number. -/
def digitCount (n : Nat) : Nat :=
  (Nat.toDigits 10 n).length

/-- The position of the leading decimal digit: the `p` with `10 ^ p ≤ value < 10 ^ (p + 1)`.

Every double is at least `10 ^ -340`, so after a shift by 340 places it has an integer part. -/
def Binary.leadingPlace (value : Binary) : Int :=
  let shifted :=
    (value.mantissa * Nat.pow 10 340) <<< value.exponent.toNat >>> (-value.exponent).toNat
  digitCount shifted - 341

/-- The point nearest to the double on the grid of multiples of `10 ^ place`, when it reads back.

All lengths are counted in quarters of the last binary place, over a common denominator. -/
def Binary.onGrid? (value : Binary) (tie : Tie) (place : Int) : Option Digits :=
  let quarter := value.exponent - 2
  let unit := Nat.pow 10 (-place).toNat <<< quarter.toNat
  let step := Nat.pow 10 place.toNat <<< (-quarter).toNat
  let middle := 4 * value.mantissa * unit
  let low := (4 * value.mantissa - if value.narrowBelow then 1 else 2) * unit
  let high := (4 * value.mantissa + 2) * unit
  let readsBack (point : Nat) : Bool :=
    if value.mantissa % 2 = 0 then low ≤ point * step ∧ point * step ≤ high
    else low < point * step ∧ point * step < high
  let below := middle / step
  let above := below + 1
  let nearBelow := middle - below * step
  let nearAbove := above * step - middle
  let preferBelow : Bool :=
    if nearBelow = nearAbove then
      match tie with
      | .up => false
      | .even => below % 2 = 0
    else nearBelow < nearAbove
  match readsBack below, readsBack above with
  | true, true => some ⟨if preferBelow then below else above, place⟩
  | true, false => some ⟨below, place⟩
  | false, true => some ⟨above, place⟩
  | false, false => none

/-- The fewest digits that read back, and of those the nearest.  Seventeen digits always do. -/
def Binary.shortest (value : Binary) (tie : Tie) : Digits :=
  let leading := value.leadingPlace
  ((List.range 17).findSome? fun extra : Nat => value.onGrid? tie (leading - extra)).getD ⟨0, 0⟩

end Adql.Decimal
