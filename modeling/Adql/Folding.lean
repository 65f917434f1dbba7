import Adql.Decimal.Nearest
import Adql.Token.Value
import Adql.Traversal.Transformer

/-!
# Constant folding

Expressions of literals are replaced by the literals that they are worth: arithmetic on numbers,
the joining of texts, signs, the negation of truth values, and parentheses around a literal.  An
operation that has no value within the range of its literals stays as it is written: integers that
overflow, division by zero, and real numbers that would not be finite.  How many nodes were
replaced is counted.
-/

namespace Adql.Folding

open Adql.Decimal

/-! ### Integers -/

/-- The integer value of a binary operator within sixty-four bits, if there is one.  Division goes
towards zero, and a remainder exists where the quotient does. -/
def integerValue? (op : BinaryOp) (left right : Int64) : Option Int64 :=
  let a := left.toInt
  let b := right.toInt
  match op with
  | .add => int64? (a + b)
  | .sub => int64? (a - b)
  | .mul => int64? (a * b)
  | .div => if b = 0 then none else int64? (a.tdiv b)
  | .mod => if b = 0 then none else (int64? (a.tdiv b)).bind fun _ => int64? (a.tmod b)
  | .bitAnd => some (left &&& right)
  | .bitOr => some (left ||| right)
  | .bitXor => some (left ^^^ right)
  | _ => none

/-! ### Real numbers and literals -/

/-- The real value of a binary operator, if it is finite. -/
def realValue? (op : BinaryOp) (left right : Double) : Option Double :=
  let value? : Option Double :=
    match op with
    | .add => some (left + right)
    | .sub => some (left - right)
    | .mul => some (left * right)
    | .div => some (left / right)
    | _ => none
  value?.filter Double.isFinite

/-- The value of a binary operator between two literals, if it has one.  An integer beside a real
number counts as the nearest real number. -/
def binaryValue? (op : BinaryOp) : Literal → Literal → Option Literal
  | .integer a, .integer b => (integerValue? op a b).map .integer
  | .real a, .real b => (realValue? op a b).map .real
  | .integer a, .real b => (realValue? op (nearestToInteger a.toInt) b).map .real
  | .real a, .integer b => (realValue? op a (nearestToInteger b.toInt)).map .real
  | .string a, .string b => if op = .concat then some (.string (a ++ b)) else none
  | _, _ => none

/-- The value of a prefix operator before a literal, if it has one. -/
def unaryValue? : UnaryOp → Literal → Option Literal
  | .neg, .integer value => (int64? (-value.toInt)).map .integer
  | .neg, .real value => some (.real (-value))
  | .not, .boolean value => some (.boolean !value)
  | _, _ => none

/-! ### Expressions -/

/-- The literal that an expression of literals is worth, if it is an operation or in
parentheses. -/
def value? : Expr → Option Literal
  | .binary (.literal left) op (.literal right) => binaryValue? op left right
  | .unary op (.literal operand) => unaryValue? op operand
  | .paren (.literal value) => some value
  | _ => none

/-- An expression or the literal that it is worth; a replacement is counted. -/
def simplify (expr : Expr) : StateM Nat Expr :=
  match value? expr with
  | some value => do
    modify (· + 1)
    pure (.literal value)
  | none => pure expr

/-- Folds the parts of an expression first, and then the expression. -/
def transformer : Transformer (StateM Nat) := fun node rebuild =>
  match node with
  | .expr _ => do simplify (← rebuild)
  | _ => rebuild

end Adql.Folding

namespace Adql

/-- A folded expression, and how many nodes were replaced. -/
def Expr.folded (expr : Expr) : Expr × Nat :=
  (Folding.transformer.applyToExpr expr).run 0

/-- A folded query, and how many nodes were replaced. -/
def Query.folded (query : Query) : Query × Nat :=
  (Folding.transformer.applyToQuery query).run 0

end Adql
