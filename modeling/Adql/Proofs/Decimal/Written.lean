import Adql.Proofs.Decimal.Shortest
import Adql.Proofs.RoundTrip.Scanning
import Mathlib.Data.List.DropRight

/-!
# Written numbers are read back

The text of a finite double is read as the double, in every layout (`readReal?_text`).

A layout places the same digits in different ways.  Each text that it makes of them is read as a
coefficient and a power of ten whose product is what the digits stand for (`Denotes`): zeros in front,
zeros behind and the point are counted in the exponent (`Layout.denotes_write`).  So it does not matter
which of the decimal numbers near the double has been written.
-/

namespace Adql.Decimal

/-! ### Texts of decimal numbers -/

/-- The text starts with a digit and is read as the double nearest to the number. -/
structure Denotes (text : List Char) (x : ℚ) : Prop where
  /-- There is neither a sign nor a word. -/
  starts : ∃ c rest, text = c :: rest ∧ c.isDigit = true
  /-- The number is a coefficient times a power of ten. -/
  reads : ∃ (coefficient : Nat) (exponent : Int), coefficient * 10 ^ exponent = x ∧
    readMagnitude? text = some (nearest coefficient exponent)

/-- The text ends a numeral and is read as the exponent. -/
structure Shifts (text : List Char) (exponent : Int) : Prop where
  /-- It is read as the exponent. -/
  reads : readExponent? text = some exponent
  /-- It is set apart from the digits and has no point. -/
  apart : ∀ c ∈ text.head?, c.isDigit = false ∧ c ≠ '.'

/-- Equal numbers are denoted alike. -/
theorem Denotes.of_eq {text : List Char} {x y : ℚ} (h : Denotes text x) (same : x = y) :
    Denotes text y :=
  same ▸ h

/-- A numeral that ends with its digits has no exponent. -/
theorem Shifts.nil : Shifts [] 0 where
  reads := rfl
  apart _ h := nomatch h

section

variable {whole fraction ending : List Char} {exponent : Int}

/-- Digits are read as their value. -/
theorem readNatural?_of_isDigit (some : whole ≠ []) (all : ∀ c ∈ whole, c.isDigit = true) :
    readNatural? 10 whole = .some (Nat.ofDigitChars 10 whole 0) := by
  rw [readNatural?, if_neg (by simpa using some), readDigits?_of_isDigit all]

/-- Digits in front of an exponent stand for their value. -/
theorem Shifts.denotes (h : Shifts ending exponent) (some : whole ≠ [])
    (all : ∀ c ∈ whole, c.isDigit = true) :
    Denotes (whole ++ ending) (Nat.ofDigitChars 10 whole 0 * 10 ^ exponent) := by
  have cut := spanDigits_append_stop all fun c hc => (h.apart c hc).1
  have value := readNatural?_of_isDigit some all
  obtain ⟨first, rest, rfl⟩ := List.exists_cons_of_ne_nil some
  refine ⟨⟨first, rest ++ ending, rfl, all first List.mem_cons_self⟩, _, exponent, rfl, ?_⟩
  unfold readMagnitude?
  simp only [cut]
  split
  · next rest => exact absurd rfl (h.apart '.' rfl).2
  · simp only [h.reads, List.append_nil, value, List.length_nil, Nat.cast_zero, sub_zero]
    rfl

/-- Digits with a point among them stand for their value, shifted by the places behind the point. -/
theorem Shifts.denotes_point (h : Shifts ending exponent) (some : whole ≠ [])
    (all : ∀ c ∈ whole, c.isDigit = true) (behind : ∀ c ∈ fraction, c.isDigit = true) :
    Denotes (whole ++ '.' :: (fraction ++ ending))
      (Nat.ofDigitChars 10 (whole ++ fraction) 0 * 10 ^ (exponent - fraction.length)) := by
  have cut : spanDigits (whole ++ '.' :: (fraction ++ ending)) = _ :=
    spanDigits_append_stop all (by simp)
  have cut' := spanDigits_append_stop behind fun c hc => (h.apart c hc).1
  have value := readNatural?_of_isDigit (List.append_ne_nil_of_left_ne_nil some fraction)
    (List.forall_mem_append.mpr ⟨all, behind⟩)
  obtain ⟨first, rest, rfl⟩ := List.exists_cons_of_ne_nil some
  refine ⟨⟨first, _, rfl, all first List.mem_cons_self⟩, _, _, rfl, ?_⟩
  unfold readMagnitude?
  simp only [cut, cut', h.reads, value]
  rfl

/-- Digits with a point among them need no exponent. -/
theorem denotes_of_point (some : whole ≠ []) (all : ∀ c ∈ whole, c.isDigit = true)
    (behind : ∀ c ∈ fraction, c.isDigit = true) :
    Denotes (whole ++ '.' :: fraction)
      (Nat.ofDigitChars 10 (whole ++ fraction) 0 * 10 ^ (-fraction.length : Int)) := by
  simpa using Shifts.nil.denotes_point some all behind

end

/-! ### Layouts -/

/-- What digits stand for if the first one has a place. -/
def placed (digits : List Char) (place : Int) : ℚ :=
  Nat.ofDigitChars 10 digits 0 * 10 ^ (place + 1 - digits.length)

/-- What digits stand for can be told from their exponent. -/
theorem mul_eq_placed {digits : List Char} {place exponent : Int}
    (h : exponent = place + 1 - digits.length) :
    (Nat.ofDigitChars 10 digits 0 : ℚ) * 10 ^ exponent = placed digits place := by
  rw [h, placed]

/-- Zeros at the end change nothing. -/
theorem placed_append_zeros (digits : List Char) (count : Nat) (place : Int) :
    placed (digits ++ zeros count) place = placed digits place := by
  unfold placed zeros
  rw [Nat.ofDigitChars_append, Nat.ofDigitChars_replicate_zero, List.length_append,
    List.length_replicate]
  push_cast
  rw [mul_comm ((10 : ℚ) ^ count), mul_assoc, ← zpow_natCast, ← zpow_add₀ (by norm_num)]
  congr 2
  omega

/-- Zeros in front are no part of the value. -/
theorem ofDigitChars_zeros_append (count : Nat) (digits : List Char) :
    Nat.ofDigitChars 10 (zeros count ++ digits) 0 = Nat.ofDigitChars 10 digits 0 := by
  rw [zeros, Nat.ofDigitChars_append, Nat.ofDigitChars_replicate_zero, Nat.mul_zero]

/-- Digits end with the zeros that are left out, if there are any. -/
theorem exists_zeros (digits : List Char) :
    ∃ count, digits = (digits.reverse.dropWhile (· == '0')).reverse ++ zeros count := by
  have zero : digits.rtakeWhile (· == '0') = zeros (digits.rtakeWhile (· == '0')).length :=
    List.eq_replicate_of_mem fun c hc => by simpa using List.mem_rtakeWhile_imp hc
  have parts := List.rdropWhile_append_rtakeWhile (p := (· == '0')) (l := digits)
  rw [zero] at parts
  exact ⟨_, parts.symm⟩

/-- The zeros at the end may be left out. -/
theorem placed_withoutTrailingZeros (digits : List Char) (place : Int) :
    placed (withoutTrailingZeros digits) place = placed digits place := by
  obtain ⟨count, same⟩ := exists_zeros digits
  unfold withoutTrailingZeros
  split
  · next none =>
    rw [none] at same
    rw [same, placed_append_zeros]
    have zero : Nat.ofDigitChars 10 ['0'] 0 = 0 := rfl
    simp [placed, zero]
  · next kept _ =>
    conv_rhs => rw [same, placed_append_zeros]

/-- The exponent of a layout is read back. -/
theorem Layout.shifts (layout : Layout) (place : Int) :
    Shifts ('e' :: ((if place < 0 then ['-'] else if layout.signedExponent then ['+'] else []) ++
      Nat.toDigits 10 place.natAbs)) place where
  reads := by
    have value := readNatural?_toDigits place.natAbs
    rw [readExponent?, if_pos (.inl rfl)]
    unfold readInteger?
    split_ifs with negative signed
    · simp only [List.singleton_append, splitSign, value]
      exact congrArg some (show -(place.natAbs : Int) = place by omega)
    · simp only [List.singleton_append, splitSign, value]
      exact congrArg some (show (place.natAbs : Int) = place by omega)
    · simp only [List.nil_append, splitSign_toDigits, value]
      exact congrArg some (show (place.natAbs : Int) = place by omega)
  apart c h := by
    obtain rfl := Option.some.inj h
    decide

section

variable {digits : List Char} {place : Int}

/-- Digits behind the point stand for what they are placed as. -/
theorem denotes_behind_zeros (all : ∀ c ∈ digits, c.isDigit = true) (negative : place < 0) :
    Denotes ('0' :: '.' :: (zeros ((-place).toNat - 1) ++ digits)) (placed digits place) := by
  have value : Nat.ofDigitChars 10 (['0'] ++ (zeros ((-place).toNat - 1) ++ digits)) 0 =
      Nat.ofDigitChars 10 digits 0 := ofDigitChars_zeros_append ((-place).toNat - 1 + 1) digits
  refine (denotes_of_point (List.cons_ne_nil '0' []) (fun c hc => isDigit_of_mem_zero hc)
    (List.forall_mem_append.mpr ⟨fun c hc => isDigit_of_mem_zeros hc, all⟩)).of_eq ?_
  rw [value, List.length_append, zeros, List.length_replicate]
  exact mul_eq_placed (by omega)

/-- Digits in front of the point and behind it stand for what they are placed as. -/
theorem denotes_around_point (some : digits ≠ []) (all : ∀ c ∈ digits, c.isDigit = true)
    (nonnegative : 0 ≤ place) :
    Denotes (digits.take (place.toNat + 1) ++ zeros (place.toNat + 1 - digits.length) ++
      '.' :: (if (digits.drop (place.toNat + 1)).isEmpty then ['0']
        else digits.drop (place.toNat + 1))) (placed digits place) := by
  have first : digits.take (place.toNat + 1) ++ zeros (place.toNat + 1 - digits.length) ≠ [] := by
    simp [some]
  have shown : ∀ c ∈ digits.take (place.toNat + 1) ++ zeros (place.toNat + 1 - digits.length),
      c.isDigit = true := List.forall_mem_append.mpr
    ⟨fun c hc => all c (List.mem_of_mem_take hc), fun c hc => isDigit_of_mem_zeros hc⟩
  split
  · next short =>
    have short : digits.length ≤ place.toNat + 1 := by simpa using short
    refine (denotes_of_point first shown fun c hc => isDigit_of_mem_zero hc).of_eq ?_
    rw [List.take_of_length_le short, List.append_assoc,
      show zeros (place.toNat + 1 - digits.length) ++ ['0'] =
        zeros (place.toNat + 1 - digits.length + 1) from List.replicate_succ'.symm,
      ← placed_append_zeros digits (place.toNat + 1 - digits.length + 1)]
    refine mul_eq_placed ?_
    rw [List.length_append, zeros, List.length_replicate, List.length_singleton]
    omega
  · next long =>
    have long : place.toNat + 1 < digits.length := by simpa using long
    refine (denotes_of_point first shown fun c hc => all c (List.mem_of_mem_drop hc)).of_eq ?_
    rw [show place.toNat + 1 - digits.length = 0 by omega, zeros, List.replicate_zero,
      List.append_nil, List.take_append_drop, List.length_drop]
    exact mul_eq_placed (by omega)

/-- Whatever the layout is, the text that it makes of digits stands for what they are placed as. -/
theorem Layout.denotes_write (layout : Layout) (some : digits ≠ [])
    (all : ∀ c ∈ digits, c.isDigit = true) (place : Int) :
    Denotes (layout.write digits place) (placed digits place) := by
  unfold Layout.write
  split
  · split
    · next negative => exact denotes_behind_zeros all negative
    · next nonnegative => exact denotes_around_point some all (not_lt.mp nonnegative)
  · have exponent := layout.shifts place
    obtain ⟨first, rest, rfl⟩ := List.exists_cons_of_ne_nil some
    obtain ⟨digit, others⟩ := List.forall_mem_cons.mp all
    rw [List.append_assoc]
    cases rest with
    | nil => exact (exponent.denotes some all).of_eq (mul_eq_placed (by simp))
    | cons second rest =>
      refine (exponent.denotes_point (List.cons_ne_nil first [])
        (List.forall_mem_singleton.mpr digit) others).of_eq (mul_eq_placed ?_)
      simp only [List.singleton_append, List.length_cons]
      omega

end

/-! ### Doubles -/

/-- A text that stands for a number is read as the double nearest to it. -/
theorem Denotes.readReal? {text : String} {x : ℚ} (h : Denotes text.toList x) :
    ∃ (coefficient : Nat) (exponent : Int), coefficient * 10 ^ exponent = x ∧
      Decimal.readReal? text = some (nearest coefficient exponent) := by
  obtain ⟨c, rest, written, digit⟩ := h.starts
  rw [readReal?_eq written (.inl digit)]
  exact h.reads

/-- With a minus sign in front, a text that stands for a number is read as the opposite double. -/
theorem Denotes.readReal?_neg {text : String} {x : ℚ} (h : Denotes text.toList x) :
    Decimal.readReal? ("-" ++ text) = (Decimal.readReal? text).map (-·) := by
  obtain ⟨c, rest, written, digit⟩ := h.starts
  have minus : splitSign ("-" ++ text).toList = (true, text.toList) := by
    rw [String.toList_append]
    rfl
  have plain : splitSign text.toList = (false, text.toList) := by
    rw [written, splitSign_cons (.inl digit)]
  simp only [Decimal.readReal?, minus, plain, if_true, Bool.false_eq_true, if_false, Option.map_map]
  rfl

/-- The text of a finite double that is not negative stands for a number near to the double. -/
theorem Layout.denotes_text (layout : Layout) {value : Double} (positive : value.isNegative = false)
    (finite : value.isFinite = true) :
    ∃ x, Denotes (layout.text value).toList x ∧
      ∀ (coefficient : Nat) (exponent : Int), coefficient * 10 ^ exponent = x →
        nearest coefficient exponent = value := by
  unfold Layout.text
  obtain zero | ⟨binary, found⟩ := magnitude_of_isFinite finite
  · simp only [positive, zero]
    have digit : ∀ c ∈ ['0'], c.isDigit = true := fun c hc => isDigit_of_mem_zero hc
    have denotes : Denotes ['0', '.', '0'] 0 :=
      (denotes_of_point (List.cons_ne_nil '0' []) digit digit).of_eq (zero_mul _)
    refine ⟨0, denotes, fun coefficient exponent same => ?_⟩
    rw [mul_eq_zero_iff_right (by positivity), Nat.cast_eq_zero] at same
    rw [nearest, if_pos same, eq_zero_of_magnitude zero positive]
  · simp only [positive, found, Bool.false_eq_true, ↓reduceIte, String.empty_append,
      String.toList_ofList]
    obtain ⟨normal, -⟩ := normal_of_magnitude found positive
    have digits : ∀ c ∈ Nat.toDigits 10 (binary.shortest layout.tie).coefficient, c.isDigit = true :=
      fun c hc => isDigit_of_mem_toDigits hc
    refine ⟨_, layout.denotes_write (withoutTrailingZeros_ne_nil _)
      (isDigit_of_mem_withoutTrailingZeros digits) _, fun coefficient exponent same => ?_⟩
    refine Binary.Rounds.nearest found positive ?_
    rw [same, placed_withoutTrailingZeros, placed, Nat.ofDigitChars_ten_toDigits]
    have some : 0 < (Nat.toDigits 10 (binary.shortest layout.tie).coefficient).length :=
      List.length_pos_of_ne_nil Nat.toDigits_ne_nil
    convert Binary.rounds_shortest normal layout.tie using 3
    omega

/-- The text of a finite double is read as the double. -/
theorem readReal?_text (layout : Layout) {value : Double} (finite : value.isFinite = true) :
    readReal? (layout.text value) = some value := by
  have unsigned {value : Double} (positive : value.isNegative = false)
      (finite : value.isFinite = true) : readReal? (layout.text value) = some value := by
    obtain ⟨x, denotes, near⟩ := layout.denotes_text positive finite
    obtain ⟨coefficient, exponent, same, read⟩ := denotes.readReal?
    rw [read, near coefficient exponent same]
  cases sign : value.isNegative with
  | false => exact unsigned sign finite
  | true =>
    have positive : (-value).isNegative = false := by rw [value.isNegative_neg, sign]; rfl
    have finite' : (-value).isFinite = true := by rwa [Double.isFinite, Double.exponent_neg]
    obtain ⟨x, denotes, -⟩ := layout.denotes_text positive finite'
    rw [Layout.text_of_isNegative sign (magnitude_ne_of_isFinite finite), denotes.readReal?_neg,
      unsigned positive finite']
    exact congrArg some value.neg_neg

end Adql.Decimal
