import Adql.Decimal.Nearest
import Adql.Decimal.Shortest
import Mathlib.Algebra.Order.Field.Power
import Mathlib.Algebra.Order.Archimedean.Basic
import Mathlib.Algebra.Order.Field.Rat
import Mathlib.Data.Nat.Cast.Order.Field
import Mathlib.Tactic.FieldSimp
import Mathlib.Tactic.Linarith
import Mathlib.Tactic.NormNum.Pow
import Mathlib.Tactic.Positivity
import Mathlib.Tactic.Ring

/-!
# Decimal numbers that are read as a double

The numbers that are nearer to a double than to its neighbours make up an interval
(`Binary.Rounds`).  Its ends lie halfway to the neighbours, and they are read as the double if its
mantissa is even.  Below a power of two the gap is half as wide.

The reader counts in units of the last place (`nearestBits`).  It finds the unit from the number that it
reads, which lies in the same interval of powers of two as the double, or just below it if the double is
a power of two.  In both cases it builds the bits of the double (`nearest_of_rounds`).
-/

namespace Adql.Decimal

open Adql.Double

/-! ### Quotients and powers -/

/-- A quotient whose numerator or denominator is shifted is scaled by a power of two. -/
theorem shiftLeft_div (numerator denominator : Nat) (unit : Int) :
    ((numerator <<< (-unit).toNat : Nat) : ℚ) / (denominator <<< unit.toNat : Nat) =
      numerator / denominator / 2 ^ unit := by
  rw [Nat.shiftLeft_eq, Nat.shiftLeft_eq]
  push_cast
  obtain ⟨n, rfl | rfl⟩ := unit.eq_nat_or_neg
  · rw [show (-(n : Int)).toNat = 0 by omega, Int.toNat_natCast, zpow_natCast, pow_zero, mul_one,
      div_div]
  · rw [show (- -(n : Int)).toNat = n by omega, show (-(n : Int)).toNat = 0 by omega, zpow_neg,
      zpow_natCast, pow_zero, mul_one, div_inv_eq_mul, mul_div_right_comm]

/-- Shifted numbers are compared as their quotient is with a power of two. -/
theorem shiftLeft_lt_iff {numerator denominator : Nat} (positive : 0 < denominator) (unit : Int) :
    numerator <<< (-unit).toNat < denominator <<< unit.toNat ↔
      (numerator / denominator : ℚ) < 2 ^ unit := by
  have shifted : (0 : ℚ) < (denominator <<< unit.toNat : Nat) := by
    rw [Nat.shiftLeft_eq]
    exact_mod_cast Nat.mul_pos positive (Nat.two_pow_pos _)
  have scaled := shiftLeft_div numerator denominator unit
  rw [div_eq_iff shifted.ne'] at scaled
  have two : (0 : ℚ) < 2 ^ unit := by positivity
  rw [← Nat.cast_lt (α := ℚ), scaled, mul_lt_iff_lt_one_left shifted, div_lt_one two]

/-- A number that is shifted to the left or to the right is at most scaled by a power of two. -/
theorem shiftRight_le (n : Nat) (unit : Int) :
    ((n <<< unit.toNat >>> (-unit).toNat : Nat) : ℚ) ≤ n * 2 ^ unit := by
  have scaled := shiftLeft_div n 1 (-unit)
  rw [Int.neg_neg, Nat.one_shiftLeft, zpow_neg, div_inv_eq_mul, Nat.cast_one, div_one] at scaled
  rw [← scaled, Nat.shiftRight_eq_div_pow]
  exact Nat.cast_div_le

/-- A number that is shifted to the right is not lost if it is large enough. -/
theorem shiftRight_pos {n : Nat} {unit : Int} (large : 2 ^ (-unit).toNat ≤ n) :
    0 < n <<< unit.toNat >>> (-unit).toNat := by
  rw [Nat.shiftRight_eq_div_pow, Nat.shiftLeft_eq]
  exact Nat.div_pos (large.trans (Nat.le_mul_of_pos_right _ (Nat.two_pow_pos _)))
    (Nat.two_pow_pos _)

/-- A power of ten is the same among the rational numbers. -/
theorem cast_pow_ten (n : Nat) : ((Nat.pow 10 n : Nat) : ℚ) = 10 ^ n := by
  exact_mod_cast rfl

/-- A coefficient beside a power of ten is a quotient of natural numbers. -/
theorem pow_ten_div (coefficient : Nat) (exponent : Int) :
    ((coefficient * Nat.pow 10 exponent.toNat : Nat) : ℚ) / (Nat.pow 10 (-exponent).toNat : Nat) =
      coefficient * 10 ^ exponent := by
  rw [Nat.cast_mul, cast_pow_ten, cast_pow_ten]
  obtain ⟨n, rfl | rfl⟩ := exponent.eq_nat_or_neg
  · rw [show (-(n : Int)).toNat = 0 by omega, Int.toNat_natCast, zpow_natCast, pow_zero, div_one]
  · rw [show (- -(n : Int)).toNat = n by omega, show (-(n : Int)).toNat = 0 by omega, zpow_neg,
      zpow_natCast, pow_zero, mul_one, div_eq_mul_inv]

/-- Three binary places are worth less than a decimal one. -/
theorem two_zpow_le (n : Nat) : (2 : ℚ) ^ (3 * n : Int) ≤ 10 ^ (n : Int) := by
  rw [zpow_mul, zpow_natCast, zpow_natCast]
  exact pow_le_pow_left₀ (by positivity) (by norm_num) n

/-- Three binary places behind the point are worth more than a decimal one. -/
theorem le_two_zpow (n : Nat) : (10 : ℚ) ^ (-n : Int) ≤ 2 ^ (-(3 * n) : Int) := by
  rw [zpow_neg, zpow_neg]
  exact inv_anti₀ (by positivity) (two_zpow_le n)

/-- The binary logarithms of numerator and denominator tell the power of two below a quotient, up to
one place. -/
theorem log2_sub_log2 {numerator denominator : Nat} (hnumerator : 0 < numerator)
    (hdenominator : 0 < denominator) :
    (2 : ℚ) ^ ((numerator.log2 : Int) - denominator.log2 - 1) < numerator / denominator ∧
      (numerator / denominator : ℚ) < 2 ^ ((numerator.log2 : Int) - denominator.log2 + 1) := by
  have two : (2 : ℚ) ≠ 0 := two_ne_zero
  have low : (2 : ℚ) ^ numerator.log2 ≤ numerator := by
    exact_mod_cast Nat.log2_self_le hnumerator.ne'
  have high : (numerator : ℚ) < 2 ^ (numerator.log2 + 1) := by exact_mod_cast Nat.lt_log2_self
  have low' : (2 : ℚ) ^ denominator.log2 ≤ denominator := by
    exact_mod_cast Nat.log2_self_le hdenominator.ne'
  have high' : (denominator : ℚ) < 2 ^ (denominator.log2 + 1) := by exact_mod_cast Nat.lt_log2_self
  have positive : (0 : ℚ) < denominator := by exact_mod_cast hdenominator
  constructor
  · rw [lt_div_iff₀ positive]
    calc (2 : ℚ) ^ ((numerator.log2 : Int) - denominator.log2 - 1) * denominator
        < 2 ^ ((numerator.log2 : Int) - denominator.log2 - 1) * 2 ^ (denominator.log2 + 1) :=
          mul_lt_mul_of_pos_left high' (by positivity)
      _ = 2 ^ numerator.log2 := by
          rw [← zpow_natCast, ← zpow_natCast, ← zpow_add₀ two]
          congr 1
          push_cast
          ring
      _ ≤ numerator := low
  · rw [div_lt_iff₀ positive]
    calc (numerator : ℚ) < 2 ^ (numerator.log2 + 1) := high
      _ = 2 ^ ((numerator.log2 : Int) - denominator.log2 + 1) * 2 ^ denominator.log2 := by
          rw [← zpow_natCast, ← zpow_natCast, ← zpow_add₀ two]
          congr 1
          push_cast
          ring
      _ ≤ 2 ^ ((numerator.log2 : Int) - denominator.log2 + 1) * denominator :=
          mul_le_mul_of_nonneg_left low' (by positivity)

/-! ### Rounding -/

/-- A quotient that is at most one half away from a natural number is rounded to it, unless it lies
halfway and the number is odd. -/
theorem roundHalfEven_eq {numerator denominator k : Nat} (positive : 0 < denominator)
    (low : (k : ℚ) - 1 / 2 ≤ numerator / denominator)
    (high : (numerator / denominator : ℚ) ≤ k + 1 / 2)
    (strict : k % 2 = 1 → (k : ℚ) - 1 / 2 < numerator / denominator ∧
      (numerator / denominator : ℚ) < k + 1 / 2) :
    roundHalfEven numerator denominator = k := by
  have positive' : (0 : ℚ) < denominator := by exact_mod_cast positive
  have low : 2 * (k * denominator) ≤ 2 * numerator + denominator := by
    rw [le_div_iff₀ positive'] at low
    have : (2 * (k * denominator) : ℚ) ≤ 2 * numerator + denominator := by linarith
    exact_mod_cast this
  have high : 2 * numerator ≤ 2 * (k * denominator) + denominator := by
    rw [div_le_iff₀ positive'] at high
    have : (2 * numerator : ℚ) ≤ 2 * (k * denominator) + denominator := by linarith
    exact_mod_cast this
  have strict (odd : k % 2 = 1) : 2 * (k * denominator) < 2 * numerator + denominator ∧
      2 * numerator < 2 * (k * denominator) + denominator := by
    obtain ⟨above, below⟩ := strict odd
    rw [lt_div_iff₀ positive'] at above
    rw [div_lt_iff₀ positive'] at below
    constructor
    · have : (2 * (k * denominator) : ℚ) < 2 * numerator + denominator := by linarith
      exact_mod_cast this
    · have : (2 * numerator : ℚ) < 2 * (k * denominator) + denominator := by linarith
      exact_mod_cast this
  have parts := Nat.div_add_mod numerator denominator
  have remainder := Nat.mod_lt numerator positive
  simp only [roundHalfEven]
  generalize numerator / denominator = whole at parts ⊢
  generalize numerator % denominator = rest at parts remainder ⊢
  rw [Nat.mul_comm] at parts
  -- The number is the whole part of the quotient or the next one.
  have least : whole ≤ k := by
    by_contra less
    have := Nat.mul_le_mul_right denominator (show k + 1 ≤ whole by omega)
    rw [Nat.add_mul, Nat.one_mul] at this
    omega
  have most : k ≤ whole + 1 := by
    by_contra more
    have := Nat.mul_le_mul_right denominator (show whole + 2 ≤ k by omega)
    rw [Nat.add_mul] at this
    omega
  obtain rfl | rfl : k = whole ∨ k = whole + 1 := by omega
  · split_ifs <;> omega
  · rw [Nat.add_mul, Nat.one_mul] at low high strict
    split_ifs <;> omega

/-- The reader counts in units of the last place of fifty-three, or of the smallest place. -/
theorem nearestBits_eq {numerator denominator k : Nat} {place unit : Int}
    (hnumerator : 0 < numerator) (hdenominator : 0 < denominator)
    (above : (2 : ℚ) ^ place ≤ numerator / denominator)
    (below : (numerator / denominator : ℚ) < 2 ^ (place + 1))
    (counted : max (place - 52) (-1074) = unit)
    (low : ((k : ℚ) - 1 / 2) * 2 ^ unit ≤ numerator / denominator)
    (high : (numerator / denominator : ℚ) ≤ (k + 1 / 2) * 2 ^ unit)
    (strict : k % 2 = 1 → ((k : ℚ) - 1 / 2) * 2 ^ unit < numerator / denominator ∧
      (numerator / denominator : ℚ) < (k + 1 / 2) * 2 ^ unit) :
    nearestBits numerator denominator =
      min infinity.bits.toNat ((unit + 1074).toNat * leadingBit + k) := by
  have two : (1 : ℚ) < 2 := one_lt_two
  obtain ⟨least, most⟩ := log2_sub_log2 hnumerator hdenominator
  have guess : ((numerator.log2 : Int) - denominator.log2 = place ∧
      ¬(numerator / denominator : ℚ) < 2 ^ ((numerator.log2 : Int) - denominator.log2)) ∨
      (numerator.log2 : Int) - denominator.log2 = place + 1 := by
    generalize (numerator.log2 : Int) - denominator.log2 = guess at least most
    have lower := (zpow_lt_zpow_iff_right₀ two).mp (least.trans below)
    have upper := (zpow_lt_zpow_iff_right₀ two).mp (above.trans_lt most)
    obtain rfl | rfl : guess = place ∨ guess = place + 1 := by omega
    · exact .inl ⟨rfl, not_lt.mpr above⟩
    · exact .inr rfl
  have found : max (if numerator <<< (-((numerator.log2 : Int) - denominator.log2)).toNat <
      denominator <<< ((numerator.log2 : Int) - denominator.log2).toNat then
        (numerator.log2 : Int) - denominator.log2 - 53
      else (numerator.log2 : Int) - denominator.log2 - 52) (-1074) = unit := by
    rw [← counted]
    rcases guess with ⟨same, notLess⟩ | next
    · rw [if_neg (mt (shiftLeft_lt_iff hdenominator _).mp notLess), same]
    · rw [if_pos ((shiftLeft_lt_iff hdenominator _).mpr (next ▸ below)), next]
      congr 1
      omega
  have one : (0 : ℚ) < 2 ^ unit := by positivity
  have shifted : 0 < denominator <<< unit.toNat := by
    rw [Nat.shiftLeft_eq]
    exact Nat.mul_pos hdenominator (Nat.two_pow_pos _)
  have rounded : roundHalfEven (numerator <<< (-unit).toNat) (denominator <<< unit.toNat) = k := by
    refine roundHalfEven_eq shifted ?_ ?_ fun odd => ?_ <;> rw [shiftLeft_div]
    · exact (le_div_iff₀ one).mpr low
    · exact (div_le_iff₀ one).mpr high
    · exact ⟨(lt_div_iff₀ one).mpr (strict odd).1, (div_lt_iff₀ one).mpr (strict odd).2⟩
  simp only [nearestBits, found, rounded]

/-! ### The numbers that are read as a double -/

/-- Are the integer and the power of two those of a double? -/
structure Binary.Normal (value : Binary) : Prop where
  /-- The double is not zero. -/
  positive : 0 < value.mantissa
  /-- The integer has at most fifty-three binary places. -/
  small : value.mantissa < 2 ^ 53
  /-- There is a smallest place. -/
  lowest : -1074 ≤ value.exponent
  /-- There is a greatest place. -/
  highest : value.exponent ≤ 971
  /-- The integer has fifty-three binary places, unless the last one is the smallest. -/
  full : 2 ^ 52 ≤ value.mantissa ∨ value.exponent = -1074
  /-- Below a power of two the gap is half as wide, unless the last place is the smallest. -/
  narrow : value.narrowBelow = true ↔ value.mantissa = 2 ^ 52 ∧ -1074 < value.exponent

/-- A double that is not negative has no sign bit. -/
theorem toNat_lt_of_isNegative {x : Double} (positive : x.isNegative = false) :
    x.bits.toNat < 2 ^ 63 := by
  simpa [isNegative, UInt64.le_iff_toNat_le, signBit] using positive

/-- A double that is zero and not negative has no bits at all. -/
theorem eq_zero_of_magnitude {x : Double} (zero : magnitude x = .zero)
    (positive : x.isNegative = false) : x = ⟨0⟩ := by
  have sign := toNat_lt_of_isNegative positive
  have parts : x.exponent = 0 ∧ x.fraction = 0 := by
    unfold magnitude at zero
    split_ifs at zero with infinite fraction exponent fraction
    exact ⟨exponent, fraction⟩
  have exponent : x.exponent = x.bits.toNat / 2 ^ 52 % 2048 := rfl
  have fraction : x.fraction = x.bits.toNat % 2 ^ 52 := rfl
  have bits : x.bits = 0 := UInt64.toNat_inj.mp (show x.bits.toNat = 0 by omega)
  exact congrArg Double.mk bits

/-- The parts of a finite double are those of a double, and they make up its bits. -/
theorem normal_of_magnitude {x : Double} {value : Binary} (found : magnitude x = .finite value)
    (positive : x.isNegative = false) :
    value.Normal ∧ x.bits.toNat = (value.exponent + 1074).toNat * leadingBit + value.mantissa := by
  have sign := toNat_lt_of_isNegative positive
  have one : leadingBit = 2 ^ 52 := rfl
  have exponent : x.exponent = x.bits.toNat / 2 ^ 52 % 2048 := rfl
  have fraction : x.fraction = x.bits.toNat % 2 ^ 52 := rfl
  unfold magnitude at found
  split at found
  · split at found <;> cases found
  · split at found
    · split at found
      · cases found
      · cases found
        refine ⟨⟨?_, ?_, ?_, ?_, .inr rfl, ?_⟩, ?_⟩ <;>
          simp only [one, Bool.false_eq_true, false_iff] <;> omega
    · cases found
      refine ⟨⟨?_, ?_, ?_, ?_, .inl ?_, ?_⟩, ?_⟩ <;>
        simp only [one, decide_eq_true_eq] <;> omega

/-- How far below a double the numbers start that are read as it, in units of its last place. -/
def Binary.gapBelow (value : Binary) : ℚ :=
  if value.narrowBelow then 1 / 4 else 1 / 2

/-- Does the number lie nearer to the double than to its neighbours, or halfway if the double is even?
-/
structure Binary.Rounds (value : Binary) (x : ℚ) : Prop where
  /-- The next smaller double is not nearer. -/
  low : (value.mantissa - value.gapBelow) * 2 ^ value.exponent ≤ x
  /-- The next larger double is not nearer. -/
  high : x ≤ (value.mantissa + 1 / 2) * 2 ^ value.exponent
  /-- The ends belong to the doubles with even mantissas. -/
  strict : value.mantissa % 2 = 1 → (value.mantissa - value.gapBelow) * 2 ^ value.exponent < x ∧
    x < (value.mantissa + 1 / 2) * 2 ^ value.exponent

namespace Binary

variable {value : Binary} {x : ℚ}

/-- The numbers that are read as a double start at most one half below it. -/
theorem gapBelow_le (value : Binary) : value.gapBelow ≤ 1 / 2 := by
  unfold gapBelow
  split <;> norm_num

/-- The numbers that are read as a double are at least half as large as its last place. -/
theorem Rounds.ge (rounds : value.Rounds x) (normal : value.Normal) :
    2 ^ (value.exponent - 1) ≤ x := by
  have one : (1 : ℚ) ≤ value.mantissa := by exact_mod_cast normal.positive
  have gap := value.gapBelow_le
  have unit : (0 : ℚ) < 2 ^ value.exponent := by positivity
  calc (2 : ℚ) ^ (value.exponent - 1) = 1 / 2 * 2 ^ value.exponent := by
        rw [zpow_sub_one₀ two_ne_zero, mul_comm, one_div]
    _ ≤ (value.mantissa - value.gapBelow) * 2 ^ value.exponent :=
        mul_le_mul_of_nonneg_right (by linarith) unit.le
    _ ≤ x := rounds.low

/-- The numbers that are read as a double are positive. -/
theorem Rounds.pos (rounds : value.Rounds x) (normal : value.Normal) : 0 < x :=
  (show (0 : ℚ) < 2 ^ (value.exponent - 1) by positivity).trans_le (rounds.ge normal)

/-- The numbers that are read as a double are smaller than the power of two above it. -/
theorem Rounds.lt (rounds : value.Rounds x) (normal : value.Normal) :
    x < 2 ^ (value.exponent + 53) := by
  have small : (value.mantissa : ℚ) + 1 ≤ 2 ^ 53 := by exact_mod_cast normal.small
  have unit : (0 : ℚ) < 2 ^ value.exponent := by positivity
  calc x ≤ (value.mantissa + 1 / 2) * 2 ^ value.exponent := rounds.high
    _ < 2 ^ 53 * 2 ^ value.exponent := mul_lt_mul_of_pos_right (by linarith) unit
    _ = 2 ^ (value.exponent + 53) := by
        rw [zpow_add₀ two_ne_zero, mul_comm]
        rfl

/-- A number below a power of two is read as the power of two only if it is at most a quarter of the
last place below it. -/
theorem Rounds.narrow (rounds : value.Rounds x) (full : 2 ^ 52 ≤ value.mantissa)
    (less : x < 2 ^ (value.exponent + 52)) : value.mantissa = 2 ^ 52 := by
  have unit : (0 : ℚ) < 2 ^ value.exponent := by positivity
  have less : value.mantissa - value.gapBelow < 2 ^ 52 := by
    rw [zpow_add₀ two_ne_zero, mul_comm] at less
    exact lt_of_mul_lt_mul_right (rounds.low.trans_lt less) unit.le
  have gap := value.gapBelow_le
  have : (value.mantissa : ℚ) < 2 ^ 52 + 1 := by linarith
  have : value.mantissa < 2 ^ 52 + 1 := by exact_mod_cast this
  omega

/-- The bits of a finite double are smaller than those of infinity. -/
theorem Normal.bits_le (normal : value.Normal) :
    (value.exponent + 1074).toNat * leadingBit + value.mantissa ≤ infinity.bits.toNat := by
  have lowest := normal.lowest
  have highest := normal.highest
  have small := normal.small
  rw [show leadingBit = 2 ^ 52 from rfl, show infinity.bits.toNat = 2047 * 2 ^ 52 from rfl]
  omega

section

variable {numerator denominator : Nat}

/-- From a number with as many binary places as the double, the reader builds the bits of the double: it
counts in units of its last place. -/
theorem Rounds.nearestBits_of_ge (rounds : value.Rounds (numerator / denominator))
    (normal : value.Normal) (hnumerator : 0 < numerator) (hdenominator : 0 < denominator)
    (large : (2 : ℚ) ^ (value.exponent + 52) ≤ numerator / denominator ∨ value.exponent = -1074) :
    nearestBits numerator denominator =
      (value.exponent + 1074).toNat * leadingBit + value.mantissa := by
  have two : (1 : ℚ) < 2 := one_lt_two
  have unit : (0 : ℚ) < 2 ^ value.exponent := by positivity
  have gap := value.gapBelow_le
  have lowest := normal.lowest
  obtain ⟨place, above, next⟩ := exists_mem_Ico_zpow (rounds.pos normal) two
  have upper := (zpow_lt_zpow_iff_right₀ two).mp (above.trans_lt (rounds.lt normal))
  have counted : max (place - 52) (-1074) = value.exponent := by
    rcases large with large | least
    · have lower := (zpow_lt_zpow_iff_right₀ two).mp (large.trans_lt next)
      omega
    · omega
  have wide : ((value.mantissa : ℚ) - 1 / 2) * 2 ^ value.exponent ≤
      (value.mantissa - value.gapBelow) * 2 ^ value.exponent :=
    mul_le_mul_of_nonneg_right (by linarith) unit.le
  rw [nearestBits_eq hnumerator hdenominator above next counted (wide.trans rounds.low)
    rounds.high fun odd => ⟨wide.trans_lt (rounds.strict odd).1, (rounds.strict odd).2⟩]
  exact Nat.min_eq_right normal.bits_le

/-- From a number with one place less than the double, which is a power of two, the reader builds the bits
of the double as well: it counts in halves of its last place, and the carry makes up for it. -/
theorem Rounds.nearestBits_of_lt (rounds : value.Rounds (numerator / denominator))
    (normal : value.Normal) (hnumerator : 0 < numerator) (hdenominator : 0 < denominator)
    (small : (numerator / denominator : ℚ) < 2 ^ (value.exponent + 52))
    (more : value.exponent ≠ -1074) :
    nearestBits numerator denominator =
      (value.exponent + 1074).toNat * leadingBit + value.mantissa := by
  have two : (1 : ℚ) < 2 := one_lt_two
  have lowest := normal.lowest
  have mantissa := rounds.narrow (normal.full.resolve_right more) small
  have low := rounds.low
  rw [gapBelow, if_pos (normal.narrow.mpr ⟨mantissa, by omega⟩), mantissa] at low
  have half : (0 : ℚ) < 2 ^ (value.exponent - 1) := by positivity
  have twice : (2 : ℚ) ^ value.exponent = 2 ^ (value.exponent - 1) * 2 := by
    rw [← zpow_add_one₀ two_ne_zero, sub_add_cancel]
  have lower : (2 : ℚ) ^ (value.exponent - 1 + 52) ≤ numerator / denominator := by
    rw [zpow_add₀ two_ne_zero]
    norm_num at low ⊢
    linarith
  obtain ⟨place, above, next⟩ := exists_mem_Ico_zpow (rounds.pos normal) two
  have upper := (zpow_lt_zpow_iff_right₀ two).mp (above.trans_lt small)
  have lower := (zpow_lt_zpow_iff_right₀ two).mp (lower.trans_lt next)
  have counted : max (place - 52) (-1074) = value.exponent - 1 := by omega
  have carried : (value.exponent - 1 + 1074).toNat * leadingBit + 2 ^ 53 =
      (value.exponent + 1074).toNat * leadingBit + value.mantissa := by
    rw [mantissa, show leadingBit = 2 ^ 52 from rfl]
    omega
  rw [zpow_add₀ two_ne_zero] at small
  norm_num at low small
  rw [nearestBits_eq (k := 2 ^ 53) hnumerator hdenominator above next counted
    (by norm_num; linarith) (by norm_num; linarith) (fun odd => by omega), carried]
  exact Nat.min_eq_right normal.bits_le

/-- The reader builds the bits of the double from the numbers that are nearest to it. -/
theorem Rounds.nearestBits (rounds : value.Rounds (numerator / denominator))
    (normal : value.Normal) (hnumerator : 0 < numerator) (hdenominator : 0 < denominator) :
    Decimal.nearestBits numerator denominator =
      (value.exponent + 1074).toNat * leadingBit + value.mantissa := by
  by_cases large : (2 : ℚ) ^ (value.exponent + 52) ≤ numerator / denominator ∨
      value.exponent = -1074
  · exact rounds.nearestBits_of_ge normal hnumerator hdenominator large
  · obtain ⟨small, more⟩ := not_or.mp large
    exact rounds.nearestBits_of_lt normal hnumerator hdenominator (not_le.mp small) more

end

section

variable {coefficient : Nat} {exponent : Int}

/-- The decimal exponent of a number that is read as a finite double is not too large to be looked at. -/
theorem Rounds.exponent_le (rounds : value.Rounds (coefficient * 10 ^ exponent))
    (normal : value.Normal) (nonzero : coefficient ≠ 0) : exponent ≤ 400 := by
  have highest := normal.highest
  have power : (0 : ℚ) < 10 ^ exponent := by positivity
  have one : (1 : ℚ) ≤ coefficient := by exact_mod_cast Nat.pos_of_ne_zero nonzero
  have bound : (10 : ℚ) ^ exponent < 10 ^ ((400 : Nat) : Int) :=
    calc (10 : ℚ) ^ exponent ≤ coefficient * 10 ^ exponent := le_mul_of_one_le_left power.le one
      _ < 2 ^ (value.exponent + 53) := rounds.lt normal
      _ ≤ 2 ^ (3 * (400 : Nat) : Int) := zpow_le_zpow_right₀ one_le_two (by omega)
      _ ≤ 10 ^ ((400 : Nat) : Int) := two_zpow_le 400
  exact ((zpow_lt_zpow_iff_right₀ (by norm_num)).mp bound).le

/-- A number that is read as a double other than zero is not too small to be looked at. -/
theorem Rounds.le_exponent (rounds : value.Rounds (coefficient * 10 ^ exponent))
    (normal : value.Normal) : -400 ≤ exponent + coefficient.log2 + 1 := by
  have lowest := normal.lowest
  have power : (0 : ℚ) < 10 ^ exponent := by positivity
  have places : (coefficient : ℚ) < 10 ^ (coefficient.log2 + 1) := by
    have binary : coefficient < 2 ^ (coefficient.log2 + 1) := Nat.lt_log2_self
    exact_mod_cast binary.trans_le (Nat.pow_le_pow_left (by decide) _)
  have bound : (10 : ℚ) ^ (-(400 : Nat) : Int) < 10 ^ (exponent + coefficient.log2 + 1) :=
    calc (10 : ℚ) ^ (-(400 : Nat) : Int) ≤ 2 ^ (-(3 * (400 : Nat)) : Int) := le_two_zpow 400
      _ ≤ 2 ^ (value.exponent - 1) := zpow_le_zpow_right₀ one_le_two (by omega)
      _ ≤ coefficient * 10 ^ exponent := rounds.ge normal
      _ < 10 ^ (coefficient.log2 + 1) * 10 ^ exponent := mul_lt_mul_of_pos_right places power
      _ = 10 ^ (exponent + coefficient.log2 + 1) := by
          rw [← zpow_natCast, ← zpow_add₀ (by norm_num)]
          congr 1
          push_cast
          ring
  exact ((zpow_lt_zpow_iff_right₀ (by norm_num)).mp bound).le

/-- A number that lies nearest to the double is read as the double. -/
theorem Rounds.nearest {x : Double} (found : magnitude x = .finite value)
    (positive : x.isNegative = false) (rounds : value.Rounds (coefficient * 10 ^ exponent)) :
    nearest coefficient exponent = x := by
  obtain ⟨normal, bits⟩ := normal_of_magnitude found positive
  have nonzero : coefficient ≠ 0 := by
    rintro rfl
    simpa using rounds.pos normal
  have quotient := pow_ten_div coefficient exponent
  have same := (quotient ▸ rounds).nearestBits normal
    (Nat.mul_pos (Nat.pos_of_ne_zero nonzero) (Nat.pow_pos (by decide))) (Nat.pow_pos (by decide))
  rw [Decimal.nearest, if_neg nonzero, if_neg (rounds.exponent_le normal nonzero).not_gt,
    if_neg (rounds.le_exponent normal).not_gt]
  simp only [same, ← bits]
  exact congrArg Double.mk UInt64.ofNat_toNat

end

end Binary

end Adql.Decimal
