/-!
# Doubles

A double is a real number of sixty-four bits: a sign, eleven places of an exponent and fifty-two
binary places of a fraction.  It is kept as its bits, so two doubles are equal exactly when
nothing tells them apart: the two zeros differ, and a value that is not a number equals itself and
has a sign.  `Double.same` compares doubles as numbers instead.
-/

namespace Adql

/-- A real number of sixty-four bits. -/
structure Double where
  /-- The sign, the exponent and the fraction, from the highest bit down. -/
  bits : UInt64
  deriving DecidableEq

namespace Double

/-! ### The parts -/

/-- What the place in front of the fifty-two places of the fraction is worth. -/
def leadingBit : Nat := 1 <<< 52

/-- The bit of the sign. -/
def signBit : UInt64 := 0x8000000000000000

/-- The exponent as it is stored. -/
def exponent (x : Double) : Nat :=
  x.bits.toNat / leadingBit % 2048

/-- The fraction as it is stored. -/
def fraction (x : Double) : Nat :=
  x.bits.toNat % leadingBit

/-- Does the sign bit stand?  It may in front of zero and of what is not a number, too. -/
def isNegative (x : Double) : Bool :=
  signBit ≤ x.bits

/-- Is the double a number that is not infinite? -/
def isFinite (x : Double) : Bool :=
  x.exponent != 2047

/-- Is the double not a number? -/
def isNotANumber (x : Double) : Bool :=
  x.exponent == 2047 && x.fraction != 0

/-- Is the double one of the two zeros? -/
def isZero (x : Double) : Bool :=
  x.exponent == 0 && x.fraction == 0

/-! ### Values -/

/-- Positive infinity. -/
def infinity : Double := ⟨0x7FF0000000000000⟩

/-- What is not a number, without a sign. -/
def notANumber : Double := ⟨0x7FF8000000000000⟩

/-- Negation turns the sign around, whatever the double is. -/
instance : Neg Double where
  neg x := ⟨x.bits ^^^ signBit⟩

/-- Turning the sign around twice changes nothing. -/
theorem neg_neg (x : Double) : - -x = x := by
  change Double.mk (x.bits ^^^ signBit ^^^ signBit) = x
  rw [UInt64.xor_assoc, UInt64.xor_self, UInt64.xor_zero]

/-- Are two doubles the same number?  The two zeros are; what is not a number is the same as
nothing. -/
def same (x y : Double) : Bool :=
  !x.isNotANumber && !y.isNotANumber && (x == y || (x.isZero && y.isZero))

/-! ### Arithmetic -/

/-- The double of a machine number. -/
def ofFloat (x : Float) : Double :=
  ⟨x.toBits⟩

/-- The machine number of a double. -/
def toFloat (x : Double) : Float :=
  .ofBits x.bits

/-- The double nearest to the sum. -/
instance : Add Double where
  add x y := .ofFloat (x.toFloat + y.toFloat)

/-- The double nearest to the difference. -/
instance : Sub Double where
  sub x y := .ofFloat (x.toFloat - y.toFloat)

/-- The double nearest to the product. -/
instance : Mul Double where
  mul x y := .ofFloat (x.toFloat * y.toFloat)

/-- The double nearest to the quotient. -/
instance : Div Double where
  div x y := .ofFloat (x.toFloat / y.toFloat)

end Double

end Adql
