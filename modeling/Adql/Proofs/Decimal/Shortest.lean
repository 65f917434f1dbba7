import Adql.Proofs.Decimal.Rounding

/-!
# The shortest digits are read back

The shortest digits of a double are looked for on ever finer grids of decimal numbers.  The search
compares natural numbers, which stand for lengths in quarters of the last binary place.  It takes a
neighbour of the double on the grid if that neighbour lies in the interval of the numbers that are read
as the double, and nothing if neither of the two does (`Binary.onGrid?_spec`).

The search ends: the double is at least `10 ^ p`, if `p` is the place of its first digit, so on the grid
sixteen places behind it one of the two neighbours of the double is near enough
(`Binary.rounds_or_rounds`).  So seventeen digits always suffice (`Binary.rounds_shortest`).
-/

namespace Adql.Decimal

/-! ### Scaled lengths -/

section

variable {unit step : Nat} {length width : ℚ}

/-- Multiples of scaled lengths are compared as multiples of the lengths are. -/
theorem scaled_le_iff (positive : 0 < unit) (hlength : 0 < length)
    (scaled : step * length = width * unit) (count point : Nat) :
    count * unit ≤ point * step ↔ count * length ≤ point * width := by
  have positive : (0 : ℚ) < unit := by exact_mod_cast positive
  have same : (point * step : ℚ) * length = point * width * unit := by
    rw [mul_assoc, scaled, mul_assoc]
  rw [← Nat.cast_le (α := ℚ), Nat.cast_mul, Nat.cast_mul, ← mul_le_mul_iff_of_pos_right hlength,
    same, mul_right_comm, mul_le_mul_iff_of_pos_right positive]

/-- Multiples of scaled lengths are compared as multiples of the lengths are, on either side. -/
theorem le_scaled_iff (positive : 0 < unit) (hlength : 0 < length)
    (scaled : step * length = width * unit) (count point : Nat) :
    point * step ≤ count * unit ↔ point * width ≤ count * length := by
  have positive : (0 : ℚ) < unit := by exact_mod_cast positive
  have same : (point * step : ℚ) * length = point * width * unit := by
    rw [mul_assoc, scaled, mul_assoc]
  rw [← Nat.cast_le (α := ℚ), Nat.cast_mul, Nat.cast_mul, ← mul_le_mul_iff_of_pos_right hlength,
    same, mul_right_comm (count : ℚ), mul_le_mul_iff_of_pos_right positive]

end

namespace Binary

variable {value : Binary}

/-- The number that the double is. -/
def toRat (value : Binary) : ℚ :=
  value.mantissa * 2 ^ value.exponent

/-! ### Points of a grid -/

/-- A power of ten that is shifted to the left is positive. -/
theorem shifted_pow_pos (places shift : Nat) : 0 < Nat.pow 10 places <<< shift := by
  rw [Nat.shiftLeft_eq]
  exact Nat.mul_pos (Nat.pow_pos (by decide)) (Nat.two_pow_pos _)

/-- The search on a grid scales powers of ten and quarters of the last binary place alike. -/
theorem grid_scaled (value : Binary) (place : Int) :
    ((Nat.pow 10 place.toNat <<< (-(value.exponent - 2)).toNat : Nat) : ℚ) *
        (2 ^ value.exponent / 4) =
      10 ^ place * (Nat.pow 10 (-place).toNat <<< (value.exponent - 2).toNat : Nat) := by
  have positive : (0 : ℚ) < (Nat.pow 10 (-place).toNat <<< (value.exponent - 2).toNat : Nat) := by
    exact_mod_cast shifted_pow_pos _ _
  have quarter : (2 : ℚ) ^ (value.exponent - 2) = 2 ^ value.exponent / 4 := by
    rw [zpow_sub₀ two_ne_zero]
    norm_num
  have power := pow_ten_div 1 place
  have shifted := shiftLeft_div (Nat.pow 10 place.toNat) (Nat.pow 10 (-place).toNat)
    (value.exponent - 2)
  rw [one_mul] at power
  rw [power, quarter, Nat.cast_one, one_mul, div_eq_div_iff positive.ne' (by positivity)] at shifted
  exact shifted

section

variable {unit step : Nat} {place : Int}

/-- The search takes a point of the grid exactly if it is read as the double. -/
theorem readsBack_iff (normal : value.Normal) (positive : 0 < unit)
    (scaled : step * (2 ^ value.exponent / 4) = (10 : ℚ) ^ place * unit) (point : Nat) :
    (if value.mantissa % 2 = 0 then
      decide ((4 * value.mantissa - if value.narrowBelow then 1 else 2) * unit ≤ point * step ∧
        point * step ≤ (4 * value.mantissa + 2) * unit)
    else
      decide ((4 * value.mantissa - if value.narrowBelow then 1 else 2) * unit < point * step ∧
        point * step < (4 * value.mantissa + 2) * unit)) = true ↔
      value.Rounds (point * 10 ^ place) := by
  have hquarter : (0 : ℚ) < 2 ^ value.exponent / 4 := by positivity
  have above_iff := scaled_le_iff positive hquarter scaled
  have below_iff := le_scaled_iff positive hquarter scaled
  have lowest : ((4 * value.mantissa - if value.narrowBelow then 1 else 2 : Nat) : ℚ) *
      (2 ^ value.exponent / 4) = (value.mantissa - value.gapBelow) * 2 ^ value.exponent := by
    have some := normal.positive
    unfold gapBelow
    split <;> rw [Nat.cast_sub (by omega)] <;> push_cast <;> ring
  have highest : ((4 * value.mantissa + 2 : Nat) : ℚ) * (2 ^ value.exponent / 4) =
      (value.mantissa + 1 / 2) * 2 ^ value.exponent := by
    push_cast
    ring
  split
  · next even =>
    rw [decide_eq_true_eq, above_iff, below_iff, lowest, highest]
    exact ⟨fun ⟨low, high⟩ => ⟨low, high, fun odd => by omega⟩,
      fun rounds => ⟨rounds.low, rounds.high⟩⟩
  · next odd =>
    rw [decide_eq_true_eq, ← not_le, ← not_le, above_iff, below_iff, lowest, highest, not_le, not_le]
    exact ⟨fun strict => ⟨strict.1.le, strict.2.le, fun _ => strict⟩,
      fun rounds => rounds.strict (by omega)⟩

/-- The search looks at the two neighbours of the double on the grid. -/
theorem neighbours_of_grid (value : Binary) (positive : 0 < unit) (hstep : 0 < step)
    (scaled : step * (2 ^ value.exponent / 4) = (10 : ℚ) ^ place * unit) :
    (4 * value.mantissa * unit / step : Nat) * (10 : ℚ) ^ place ≤ value.toRat ∧
      value.toRat < (4 * value.mantissa * unit / step + 1 : Nat) * (10 : ℚ) ^ place := by
  have hquarter : (0 : ℚ) < 2 ^ value.exponent / 4 := by positivity
  have below_iff := le_scaled_iff positive hquarter scaled
  have exactly : ((4 * value.mantissa : Nat) : ℚ) * (2 ^ value.exponent / 4) = value.toRat := by
    unfold toRat
    push_cast
    ring
  rw [← exactly, ← not_le, ← below_iff, ← below_iff, not_le, ← Nat.div_lt_iff_lt_mul hstep]
  exact ⟨Nat.div_mul_le_self _ _, Nat.lt_succ_self _⟩

end

/-- On a grid of decimal numbers, the search takes a point that is read as the double, unless neither of
the two neighbours of the double is. -/
theorem onGrid?_spec (normal : value.Normal) (tie : Tie) (place : Int) :
    ∃ below : Nat, below * 10 ^ place ≤ value.toRat ∧
      value.toRat < (below + 1 : Nat) * 10 ^ place ∧
      match value.onGrid? tie place with
      | some digits => digits.exponent = place ∧ value.Rounds (digits.coefficient * 10 ^ place)
      | none =>
        ¬value.Rounds (below * 10 ^ place) ∧ ¬value.Rounds ((below + 1 : Nat) * 10 ^ place) := by
  have scaled := value.grid_scaled place
  unfold onGrid?
  extract_lets quarter unit step middle low high readsBack below above nearBelow nearAbove
    preferBelow
  have reads (point : Nat) : readsBack point = true ↔ value.Rounds (point * 10 ^ place) :=
    readsBack_iff normal (shifted_pow_pos _ _) scaled point
  obtain ⟨least, most⟩ :=
    neighbours_of_grid value (shifted_pow_pos _ _) (shifted_pow_pos _ _) scaled
  refine ⟨below, least, most, ?_⟩
  have atBelow := reads below
  have atAbove := reads above
  cases hbelow : readsBack below with
  | false =>
    have notBelow := mt atBelow.mpr (by simp [hbelow])
    cases habove : readsBack above with
    | false => exact ⟨notBelow, mt atAbove.mpr (by simp [habove])⟩
    | true => exact ⟨rfl, atAbove.mp habove⟩
  | true =>
    cases habove : readsBack above with
    | false => exact ⟨rfl, atBelow.mp hbelow⟩
    | true =>
      refine ⟨rfl, ?_⟩
      simp only
      split
      · exact atBelow.mp hbelow
      · exact atAbove.mp habove

/-! ### The end of the search -/

/-- If the steps of a grid are at least `10 ^ 16` times smaller than the double, one of the neighbours
of the double is read as the double. -/
theorem rounds_or_rounds (normal : value.Normal) {step : ℚ} {below : Nat}
    (fine : step * 10 ^ 16 ≤ value.toRat) (low : below * step ≤ value.toRat)
    (high : value.toRat < (below + 1 : Nat) * step) :
    value.Rounds (below * step) ∨ value.Rounds ((below + 1 : Nat) * step) := by
  unfold toRat at fine low high
  have unit : (0 : ℚ) < 2 ^ value.exponent := by positivity
  have gap : 0 < value.gapBelow := by
    unfold gapBelow
    split <;> norm_num
  push_cast at high ⊢
  by_cases near : ((below : ℚ) + 1) * step < (value.mantissa + 1 / 2) * 2 ^ value.exponent
  · have above : (value.mantissa - value.gapBelow) * 2 ^ value.exponent < (below + 1) * step :=
      (mul_lt_mul_of_pos_right (by linarith) unit).trans high
    exact .inr ⟨above.le, near.le, fun _ => ⟨above, near⟩⟩
  · have far := not_lt.mp near
    -- The interval is wider than the step, so it starts below the neighbour below.
    have small : step < value.gapBelow * 2 ^ value.exponent + 1 / 2 * 2 ^ value.exponent := by
      unfold gapBelow
      split
      · next narrow =>
        rw [(normal.narrow.mp narrow).1] at fine
        norm_num at fine ⊢
        linarith
      · have mantissa : (value.mantissa : ℚ) ≤ 2 ^ 53 := by exact_mod_cast normal.small.le
        have := mul_le_mul_of_nonneg_right mantissa unit.le
        norm_num at fine this ⊢
        linarith
    have above : (value.mantissa - value.gapBelow) * 2 ^ value.exponent < below * step := by
      linarith
    have near : (below : ℚ) * step < (value.mantissa + 1 / 2) * 2 ^ value.exponent := by linarith
    exact .inl ⟨above.le, near.le, fun _ => ⟨above, near⟩⟩

/-- A positive number has as many digits as its leading digit has places. -/
theorem pow_digitCount_le {n : Nat} (positive : 0 < n) : 10 ^ (digitCount n - 1) ≤ n := by
  unfold digitCount
  by_cases single : (Nat.toDigits 10 n).length ≤ 1
  · rw [show (Nat.toDigits 10 n).length - 1 = 0 by omega]
    exact positive
  · by_contra less
    have := (Nat.length_toDigits_le_iff (by decide) (by omega)).mpr (not_le.mp less)
    omega

/-- If a number is shifted by some places and has an integer part, the digits of that part tell a power
of ten that the number reaches. -/
theorem pow_digitCount_sub_le {shifted places : Nat} {x : ℚ} (positive : 0 < shifted)
    (whole : shifted ≤ x * 10 ^ places) :
    (10 : ℚ) ^ ((digitCount shifted : Int) - (places + 1 : Nat)) ≤ x := by
  have digits : (10 : ℚ) ^ (digitCount shifted - 1) ≤ shifted := by
    exact_mod_cast pow_digitCount_le positive
  have some : 0 < digitCount shifted := List.length_pos_of_ne_nil Nat.toDigits_ne_nil
  rw [show (digitCount shifted : Int) - (places + 1 : Nat) = (digitCount shifted - 1 : Nat) - places by
    omega, zpow_sub₀ (by norm_num), zpow_natCast, zpow_natCast, div_le_iff₀ (by positivity)]
  exact digits.trans whole

/-- The double is at least as large as the power of ten at the place of its first digit. -/
theorem leadingPlace_le (normal : value.Normal) :
    (10 : ℚ) ^ value.leadingPlace ≤ value.toRat := by
  unfold leadingPlace
  extract_lets shifted
  have positive : 0 < shifted := by
    have lowest := normal.lowest
    refine shiftRight_pos ?_
    calc 2 ^ (-value.exponent).toNat ≤ 2 ^ 1074 := Nat.pow_le_pow_right (by decide) (by omega)
      _ ≤ Nat.pow 10 340 := by decide +kernel
      _ ≤ value.mantissa * Nat.pow 10 340 := Nat.le_mul_of_pos_left _ normal.positive
  have whole : (shifted : ℚ) ≤ _ := shiftRight_le _ _
  simp only [Nat.cast_mul, cast_pow_ten] at whole
  refine pow_digitCount_sub_le positive (whole.trans_eq ?_)
  rw [toRat, mul_right_comm]

/-- The shortest digits of a double are read as the double. -/
theorem rounds_shortest (normal : value.Normal) (tie : Tie) :
    value.Rounds ((value.shortest tie).coefficient * 10 ^ (value.shortest tie).exponent) := by
  unfold shortest
  extract_lets leading
  have ends : ((List.range 17).findSome? fun extra : Nat =>
      value.onGrid? tie (leading - extra)).isSome := by
    refine List.findSome?_isSome_iff.mpr ⟨16, by decide, ?_⟩
    obtain ⟨below, low, high, found⟩ := onGrid?_spec normal tie (leading - (16 : Nat))
    cases taken : value.onGrid? tie (leading - (16 : Nat)) with
    | some digits => rfl
    | none =>
      rw [taken] at found
      have fine : (10 : ℚ) ^ (leading - (16 : Nat)) * 10 ^ 16 ≤ value.toRat := by
        rw [← zpow_natCast, ← zpow_add₀ (by norm_num), sub_add_cancel]
        exact leadingPlace_le normal
      exact ((rounds_or_rounds normal fine low high).elim found.1 found.2).elim
  obtain ⟨digits, some⟩ := Option.isSome_iff_exists.mp ends
  obtain ⟨extra, -, taken⟩ := List.exists_of_findSome?_eq_some some
  obtain ⟨below, -, -, found⟩ := onGrid?_spec normal tie (leading - extra)
  rw [taken] at found
  rw [some, Option.getD_some, found.1]
  exact found.2

end Binary

end Adql.Decimal
