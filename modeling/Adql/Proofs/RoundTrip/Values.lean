import Adql.Proofs.RoundTrip.Words

/-!
# Written values

The words of numbers stand for the numbers that they were written for: a natural number is written
with decimal digits, and these are read as the same number, whether as an integer literal, as a
number of rows, or as the length of a type.
-/

namespace Adql

open Adql.Decimal

/-! ### Decimal digits -/

/-- A decimal digit has its place among the digits as value. -/
theorem digitValue?_of_isDigit {c : Char} (h : c.isDigit = true) :
    digitValue? 10 c = some (c.toNat - '0'.toNat) := by
  have range : 48 ≤ c.toNat ∧ c.toNat ≤ 57 := by
    simpa [Char.isDigit, UInt32.le_iff_toNat_le] using h
  have small : c.toNat - '0'.toNat < 10 := by
    have : '0'.toNat = 48 := rfl
    omega
  simp only [digitValue?, h, ↓reduceIte, small]

/-- A row of decimal digits has the value that the digits have together. -/
theorem readDigits?_of_isDigit {digits : List Char} (h : ∀ c ∈ digits, c.isDigit = true)
    (value : Nat) : readDigits? 10 value digits = some (Nat.ofDigitChars 10 digits value) := by
  induction digits generalizing value with
  | nil => simp [readDigits?]
  | cons c rest ih =>
    have first := digitValue?_of_isDigit (h c List.mem_cons_self)
    have others := ih fun d hd => h d (List.mem_cons_of_mem c hd)
    simp only [readDigits?, first, Option.bind_eq_bind, Option.bind_some]
    rw [others, Nat.ofDigitChars_cons, Nat.mul_comm value 10]

/-- The decimal digits of a number are digits. -/
theorem isDigit_of_mem_toDigits {n : Nat} {c : Char} (h : c ∈ Nat.toDigits 10 n) :
    c.isDigit = true :=
  Nat.isDigit_of_mem_toDigits (by omega) (by omega) h

/-- The decimal digits of a number are read as the number. -/
theorem readNatural?_toDigits (n : Nat) : readNatural? 10 (Nat.toDigits 10 n) = some n := by
  rw [readNatural?, if_neg (by simp [Nat.toDigits_ne_nil]),
    readDigits?_of_isDigit fun c hc => isDigit_of_mem_toDigits hc, Nat.ofDigitChars_ten_toDigits]

/-- What starts with a digit or a point has no sign. -/
theorem splitSign_cons {c : Char} (start : c.isDigit = true ∨ c = '.') (rest : List Char) :
    splitSign (c :: rest) = (false, c :: rest) := by
  unfold splitSign
  split
  · next same =>
    obtain ⟨rfl, -⟩ := List.cons.inj same
    exact absurd start (by decide)
  · next same =>
    obtain ⟨rfl, -⟩ := List.cons.inj same
    exact absurd start (by decide)
  · rfl

/-- Decimal digits are no sign. -/
theorem splitSign_toDigits (n : Nat) :
    splitSign (Nat.toDigits 10 n) = (false, Nat.toDigits 10 n) := by
  obtain ⟨c, rest, digits⟩ := List.exists_cons_of_ne_nil (Nat.toDigits_ne_nil (b := 10) (n := n))
  have digit : c.isDigit = true := isDigit_of_mem_toDigits (digits ▸ List.mem_cons_self)
  rw [digits, splitSign_cons (.inl digit)]

/-! ### Integers -/

/-- A machine integer that is not negative has a written form as a natural number. -/
theorem repr_toInt {value : Int64} (h : 0 ≤ value.toInt) :
    value.toInt.repr = value.toInt.toNat.repr := by
  cases hvalue : value.toInt with
  | ofNat n => rfl
  | negSucc n => rw [hvalue] at h; omega

/-- A machine integer is at most the largest integer literal. -/
theorem toInt_le_maxInteger (value : Int64) : value.toInt ≤ maxInteger := by
  have := Int64.toInt_lt value
  simp only [maxInteger]
  omega

/-- A written number is read as the machine integer. -/
theorem integer?_countWord {value : Int64} (h : 0 ≤ value.toInt) :
    (countWord value.toInt.toNat).token.integer? = some value := by
  have digits : (countWord value.toInt.toNat).token.lexeme.toList =
      Nat.toDigits 10 value.toInt.toNat := Nat.toList_repr
  have decimal : readInteger? 10 (Nat.toDigits 10 value.toInt.toNat) = some value.toInt := by
    rw [readInteger?, splitSign_toDigits]
    simp only [readNatural?_toDigits, Bool.false_eq_true, ↓reduceIte]
    exact congrArg some (Int.toNat_of_nonneg h)
  have bounded : int64? value.toInt = some value := by
    have low := Int64.minValue_le_toInt value
    have high := Int64.toInt_le value
    rw [int64?, if_pos ⟨low, high⟩, Int64.ofInt_toInt]
  have isDigit := fun c (h : c ∈ Nat.toDigits 10 value.toInt.toNat) => isDigit_of_mem_toDigits h
  unfold Token.integer?
  rw [digits]
  split
  · next text _ split =>
    have hx : 'x' ∈ Nat.toDigits 10 value.toInt.toNat := by rw [split]; simp
    exact absurd (isDigit 'x' hx) (by decide)
  · next text _ split =>
    have hx : 'X' ∈ Nat.toDigits 10 value.toInt.toNat := by rw [split]; simp
    exact absurd (isDigit 'X' hx) (by decide)
  · rw [decimal]
    exact bounded

/-- An integer literal that is not negative can be written, and is read again. -/
theorem Literal.integer_sound {value : Int64} (h : 0 ≤ value.toInt) :
    (Literal.integer value).word.Spelled ∧
      (Literal.integer value).word.token.literal? = some (.integer value) := by
  have same : (Literal.integer value).word = countWord value.toInt.toNat :=
    congrArg (Word.mk .integer) (repr_toInt h)
  have bound := toInt_le_maxInteger value
  rw [same]
  refine ⟨⟨value.toInt.toNat, by omega, rfl⟩, ?_⟩
  exact congrArg (Option.map Literal.integer) (integer?_countWord h)

/-- A negative integer is written with a minus sign. -/
theorem repr_of_neg {value : Int} (h : value < 0) : value.repr = "-" ++ value.natAbs.repr := by
  cases value with
  | ofNat n => exact absurd h (Int.not_lt.mpr (Int.natCast_nonneg n))
  | negSucc n => rfl

/-- A literal that can be written as one word and is read again is not negative. -/
theorem Literal.words_eq {value : Literal} (spelled : value.word.Spelled)
    (again : value.word.token.literal? = some value) : value.words = [value.word] := by
  refine if_neg fun negative => ?_
  cases value with
  | integer value =>
    obtain ⟨n, -, written⟩ := spelled
    have below : value.toInt < 0 := by simpa [isNegative, Int64.lt_iff_toInt_lt] using negative
    have digits := congrArg String.toList ((repr_of_neg below).symm.trans written)
    rw [String.toList_append, Nat.toList_repr, Nat.toList_repr] at digits
    have sign : '-' ∈ Nat.toDigits 10 n := by rw [← digits]; simp
    exact absurd (isDigit_of_mem_toDigits sign) (by decide)
  | real value =>
    obtain ⟨other, positive, finite, -, read⟩ := spelled
    have same : (readReal? (Layout.query.text value)).filter Double.isFinite = some value := by
      simpa [Token.literal?, Token.real?, word, Word.token] using again
    have read : readReal? (Layout.query.text value) = some other := read
    rw [read, Option.filter_some, if_pos finite] at same
    obtain rfl := Option.some.inj same
    rw [isNegative, positive] at negative
    cases negative
  | _ => cases negative

/-- A number of rows can be written, and is read again. -/
theorem rowCount_sound {token : Token} {count : UInt64} (h : token.rowCount? = some count) :
    (countWord count.toNat).Spelled ∧ (countWord count.toNat).token.rowCount? = some count := by
  obtain ⟨value, _, hvalue⟩ := Option.bind_eq_some_iff.mp h
  obtain ⟨nonneg, rfl⟩ : 0 ≤ value ∧ value.toInt.toNat.toUInt64 = count := by simpa using hvalue
  have nonneg' : 0 ≤ value.toInt := by simpa [Int64.le_iff_toInt_le] using nonneg
  have bound := toInt_le_maxInteger value
  have same : value.toInt.toNat.toUInt64.toNat = value.toInt.toNat := by
    simp only [maxInteger] at bound
    exact Nat.mod_eq_of_lt (by omega)
  rw [same]
  refine ⟨⟨value.toInt.toNat, by omega, rfl⟩, ?_⟩
  rw [Token.rowCount?, integer?_countWord nonneg', Option.bind_some, if_pos nonneg]

/-- The length of a type can be written, and is read again. -/
theorem length_sound {token : Token} {length : UInt32} (h : token.length? = some length) :
    (countWord length.toNat).Spelled ∧ (countWord length.toNat).token.length? = some length := by
  obtain ⟨value, _, hvalue⟩ := Option.bind_eq_some_iff.mp h
  obtain ⟨⟨nonneg, small⟩, rfl⟩ :
      (0 ≤ value.toInt ∧ value.toInt < UInt32.size) ∧ value.toInt.toNat.toUInt32 = length := by
    simpa using hvalue
  have bound := toInt_le_maxInteger value
  have same : value.toInt.toNat.toUInt32.toNat = value.toInt.toNat := by
    simp only [UInt32.size] at small
    exact Nat.mod_eq_of_lt (by omega)
  rw [same]
  refine ⟨⟨value.toInt.toNat, by omega, rfl⟩, ?_⟩
  rw [Token.length?, integer?_countWord nonneg, Option.bind_some, if_pos ⟨nonneg, small⟩]

end Adql
