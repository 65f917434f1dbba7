import Adql.Token

/-!
# Operators

The binary and the prefix operators of expressions, how they are spelled, which tokens denote
them, and the family to which each belongs.
-/

namespace Adql

/-- A binary operator. -/
inductive BinaryOp
  | or | and
  | eq | notEq | lt | ltEq | gt | gtEq
  | concat
  | bitOr | bitXor | bitAnd
  | add | sub | mul | div | mod
  deriving DecidableEq

/-- A prefix operator. -/
inductive UnaryOp
  | not | neg | plus | bitNot
  deriving DecidableEq

/-- The family to which an operator belongs. -/
inductive OperatorFamily
  | boolean | comparison | concatenation | bitwise | arithmetic
  deriving DecidableEq

namespace BinaryOp

/-- All binary operators. -/
def all : List BinaryOp :=
  [.or, .and, .eq, .notEq, .lt, .ltEq, .gt, .gtEq, .concat, .bitOr, .bitXor, .bitAnd,
   .add, .sub, .mul, .div, .mod]

/-- The spelling of the operator. -/
def spelling : BinaryOp → String
  | .or => "OR"
  | .and => "AND"
  | .eq => "="
  | .notEq => "<>"
  | .lt => "<"
  | .ltEq => "<="
  | .gt => ">"
  | .gtEq => ">="
  | .concat => "||"
  | .bitOr => "|"
  | .bitXor => "^"
  | .bitAnd => "&"
  | .add => "+"
  | .sub => "-"
  | .mul => "*"
  | .div => "/"
  | .mod => "%"

/-- The family of the operator. -/
def family : BinaryOp → OperatorFamily
  | .or | .and => .boolean
  | .eq | .notEq | .lt | .ltEq | .gt | .gtEq => .comparison
  | .concat => .concatenation
  | .bitOr | .bitXor | .bitAnd => .bitwise
  | .add | .sub | .mul | .div | .mod => .arithmetic

/-- The kind of the token that denotes the operator. -/
def token : BinaryOp → TokenKind
  | .or => .keyword .OR
  | .and => .keyword .AND
  | .eq => .eq
  | .notEq => .notEq
  | .lt => .lt
  | .ltEq => .ltEq
  | .gt => .gt
  | .gtEq => .gtEq
  | .concat => .concat
  | .bitOr => .bitOr
  | .bitXor => .bitXor
  | .bitAnd => .bitAnd
  | .add => .plus
  | .sub => .minus
  | .mul => .star
  | .div => .slash
  | .mod => .percent

/-- The operator that a token denotes between two operands. -/
def ofToken? : TokenKind → Option BinaryOp
  | .keyword .OR => some .or
  | .keyword .AND => some .and
  | .eq => some .eq
  | .notEq => some .notEq
  | .lt => some .lt
  | .ltEq => some .ltEq
  | .gt => some .gt
  | .gtEq => some .gtEq
  | .concat => some .concat
  | .bitAnd => some .bitAnd
  | .bitOr => some .bitOr
  | .bitXor => some .bitXor
  | .plus => some .add
  | .minus => some .sub
  | .star => some .mul
  | .slash => some .div
  | .percent => some .mod
  | _ => none

/-- Every operator is denoted by its token. -/
@[simp] theorem ofToken?_token (op : BinaryOp) : ofToken? op.token = some op := by
  cases op <;> rfl

end BinaryOp

namespace UnaryOp

/-- All prefix operators. -/
def all : List UnaryOp :=
  [.not, .neg, .plus, .bitNot]

/-- The spelling of the operator. -/
def spelling : UnaryOp → String
  | .not => "NOT"
  | .neg => "-"
  | .plus => "+"
  | .bitNot => "~"

/-- The operator that a token denotes in front of an operand. -/
def ofToken? : TokenKind → Option UnaryOp
  | .keyword .NOT => some .not
  | .minus => some .neg
  | .plus => some .plus
  | .bitNot => some .bitNot
  | _ => none

end UnaryOp

end Adql
