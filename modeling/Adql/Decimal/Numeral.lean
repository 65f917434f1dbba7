import Adql.Decimal.Nearest

/-!
# Reading numerals

How numerals are read: integers in a given base with an optional sign, and real numbers in decimal
notation with an optional sign, fraction and exponent, or as one of the words for infinity and for
what is not a number.
-/

namespace Adql.Decimal

/-- The value of a digit of a base up to thirty-six, in either case of the letters. -/
def digitValue? (base : Nat) (c : Char) : Option Nat :=
  let value :=
    if c.isDigit then c.toNat - '0'.toNat
    else if 'a' ≤ c ∧ c ≤ 'z' then c.toNat - 'a'.toNat + 10
    else if 'A' ≤ c ∧ c ≤ 'Z' then c.toNat - 'A'.toNat + 10
    else 36
  if value < base then some value else none

/-- The value of a row of digits, most significant first, appended to a number read before. -/
def readDigits? (base : Nat) : Nat → List Char → Option Nat
  | value, [] => some value
  | value, c :: rest => do
    let digit ← digitValue? base c
    readDigits? base (value * base + digit) rest

/-- The value of a numeral without sign; there is at least one digit. -/
def readNatural? (base : Nat) (text : List Char) : Option Nat :=
  if text.isEmpty then none else readDigits? base 0 text

/-- Splits off a sign; `true` stands for minus. -/
def splitSign : List Char → Bool × List Char
  | '-' :: rest => (true, rest)
  | '+' :: rest => (false, rest)
  | text => (false, text)

/-- The value of a numeral with an optional sign. -/
def readInteger? (base : Nat) (text : List Char) : Option Int :=
  let (negative, digits) := splitSign text
  (readNatural? base digits).map fun value => if negative then -value else value

/-- A run of digits and what follows it. -/
def spanDigits (text : List Char) : List Char × List Char :=
  (text.takeWhile Char.isDigit, text.dropWhile Char.isDigit)

/-- The exponent that ends a numeral: nothing, or a mark, an optional sign and digits. -/
def readExponent? : List Char → Option Int
  | [] => some 0
  | c :: rest => if c = 'e' ∨ c = 'E' then readInteger? 10 rest else none

/-- A numeral without sign: digits with an optional point among or around them, then an optional
exponent. -/
def readMagnitude? (text : List Char) : Option Double := do
  let (whole, rest) := spanDigits text
  let (fraction, rest) :=
    match rest with
    | '.' :: rest => spanDigits rest
    | _ => ([], rest)
  let exponent ← readExponent? rest
  let coefficient ← readNatural? 10 (whole ++ fraction)
  pure (nearest coefficient (exponent - fraction.length))

/-- A real number in decimal notation, or one of the words `inf`, `infinity` and `nan`. -/
def readReal? (text : String) : Option Double :=
  let (negative, magnitude) := splitSign text.toList
  let value :=
    match String.ofList (magnitude.map Char.toLower) with
    | "inf" | "infinity" => some Double.infinity
    | "nan" => some Double.notANumber
    | _ => readMagnitude? magnitude
  value.map fun x => if negative then -x else x

end Adql.Decimal
