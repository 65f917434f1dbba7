import Adql.Operator

/-!
# Precedence of operators

A precedence table gives each binary operator a level and an associativity, and levels to the
prefix operators and to the postfix predicates; an operator on a higher level binds tighter.  The
grammar of expressions takes its levels from such a table, so another table gives another grammar.
-/

namespace Adql

/-- To which side operators on one level group. -/
inductive Associativity
  | left | right
  deriving DecidableEq

/-- The level and the associativity of an operator. -/
structure Binding where
  /-- How tightly the operator binds. -/
  level : Nat
  /-- To which side it groups. -/
  associativity : Associativity
  deriving DecidableEq

/-- The loosest level of a right operand: beside a left-associative operator, a right operand has
to bind tighter than the operator itself. -/
def Binding.rightOperandLevel (binding : Binding) : Nat :=
  match binding.associativity with
  | .left => binding.level + 1
  | .right => binding.level

/-- The line of a precedence table for one binary operator. -/
structure PrecedenceEntry where
  /-- The operator. -/
  op : BinaryOp
  /-- How tightly it binds and to which side. -/
  binding : Binding
  deriving DecidableEq

/-- The levels of all operators. -/
structure PrecedenceTable where
  /-- The binary operators; one that is missing is not part of the grammar. -/
  binary : List PrecedenceEntry
  /-- The level of the operand of prefix `NOT`. -/
  notLevel : Nat
  /-- The level of the postfix predicates, which group to the left. -/
  predicateLevel : Nat
  /-- The level of the operands of the other prefix operators. -/
  unaryLevel : Nat
  deriving DecidableEq

namespace PrecedenceTable

/-- The table of the language. -/
def adql : PrecedenceTable where
  binary :=
    [⟨.or, 1, .left⟩, ⟨.and, 2, .left⟩,
     ⟨.eq, 4, .left⟩, ⟨.notEq, 4, .left⟩, ⟨.lt, 4, .left⟩, ⟨.ltEq, 4, .left⟩,
     ⟨.gt, 4, .left⟩, ⟨.gtEq, 4, .left⟩,
     ⟨.concat, 5, .left⟩,
     ⟨.bitOr, 6, .left⟩, ⟨.bitXor, 7, .left⟩, ⟨.bitAnd, 8, .left⟩,
     ⟨.add, 9, .left⟩, ⟨.sub, 9, .left⟩,
     ⟨.mul, 10, .left⟩, ⟨.div, 10, .left⟩, ⟨.mod, 10, .left⟩]
  notLevel := 3
  predicateLevel := 4
  unaryLevel := 11

/-- The binding of a binary operator: its first entry counts. -/
def binding? (table : PrecedenceTable) (op : BinaryOp) : Option Binding :=
  (table.binary.find? (·.op = op)).map (·.binding)

/-- The binary operator that a token denotes, if the table has it. -/
def ofToken? (table : PrecedenceTable) (kind : TokenKind) : Option (BinaryOp × Binding) := do
  let op ← BinaryOp.ofToken? kind
  let binding ← table.binding? op
  pure (op, binding)

/-- The tokens of the entries that bind at a level or tighter, in the order of the table. -/
def infixTokens (table : PrecedenceTable) (minLevel : Nat) : List TokenKind :=
  (table.binary.filter (minLevel ≤ ·.binding.level)).map (·.op.token)

/-- The level of the operand of a prefix operator. -/
def prefixLevel (table : PrecedenceTable) : UnaryOp → Nat
  | .not => table.notLevel
  | .neg | .plus | .bitNot => table.unaryLevel

/-- The binding of the postfix predicates. -/
def predicate (table : PrecedenceTable) : Binding :=
  ⟨table.predicateLevel, .left⟩

end PrecedenceTable

end Adql
