import Adql.Decimal.Shortest

/-!
# Written forms of real numbers

A layout fixes how the shortest digits of a real number are written: when in positional notation,
and how the exponent is marked otherwise.  What is not a finite number is written as a word.
-/

namespace Adql.Decimal

/-- The decisions of a written form. -/
structure Layout where
  /-- The smallest power of ten of a leading digit that is written positionally. -/
  lowest : Int
  /-- The largest power of ten of a leading digit that is written positionally. -/
  highest : Int
  /-- Is a positive exponent written with its sign? -/
  signedExponent : Bool
  /-- Which of two equally near decimal numbers is written. -/
  tie : Tie

/-- Queries and outlines write numbers from `0.0001` to below `10 ^ 16` positionally. -/
def Layout.query : Layout where
  lowest := -4
  highest := 15
  signedExponent := false
  tie := .up

/-- Documents write numbers from `0.00001` to below `10 ^ 16` positionally and give every exponent
a sign. -/
def Layout.document : Layout where
  lowest := -5
  highest := 15
  signedExponent := true
  tie := .even

/-- A run of zeros. -/
def zeros (count : Nat) : List Char :=
  List.replicate count '0'

/-- Digits without the zeros at their end; a lone digit stays. -/
def withoutTrailingZeros (digits : List Char) : List Char :=
  match (digits.reverse.dropWhile (· == '0')).reverse with
  | [] => ['0']
  | kept => kept

/-- A finite positive number from its digits and the power of ten of the first one. -/
def Layout.write (layout : Layout) (digits : List Char) (place : Int) : List Char :=
  if layout.lowest ≤ place ∧ place ≤ layout.highest then
    if place < 0 then
      '0' :: '.' :: zeros ((-place).toNat - 1) ++ digits
    else
      let whole := place.toNat + 1
      let fraction := digits.drop whole
      digits.take whole ++ zeros (whole - digits.length) ++
        '.' :: (if fraction.isEmpty then ['0'] else fraction)
  else
    let mantissa :=
      match digits with
      | [] => []
      | [first] => [first]
      | first :: rest => first :: '.' :: rest
    let sign := if place < 0 then ['-'] else if layout.signedExponent then ['+'] else []
    mantissa ++ 'e' :: sign ++ Nat.toDigits 10 place.natAbs

/-- The written form of a double. -/
def Layout.text (layout : Layout) (x : Double) : String :=
  let sign := if x.isNegative then "-" else ""
  match magnitude x with
  | .notANumber => "NaN"
  | .infinite => sign ++ "inf"
  | .zero => sign ++ "0.0"
  | .finite value =>
    let shortest := value.shortest layout.tie
    let digits := Nat.toDigits 10 shortest.coefficient
    let place := shortest.exponent + (digits.length - 1 : Nat)
    sign ++ String.ofList (layout.write (withoutTrailingZeros digits) place)

end Adql.Decimal
