import Adql.Proofs.Folding.Folded
import Adql.Traversal.Passes

/-!
# Folding and the values of integer expressions

Expressions of integers (`Expr.IsArithmetic`) are evaluated with checks (`Expr.evaluate?`): a sum
that sixty-four bits would wrap around has no value, nor has a quotient by zero, nor the quotient of
the least integer by minus one, and what has an operand without a value has none itself.  Folding
does not change what an expression evaluates to, and it leaves a literal of an expression without
columns exactly if the expression has a value.  The one step is `evaluate?_simplified`; the runs
are inductions on the ways in which the expressions are built.
-/

namespace Adql

open Folding

/-! ### Checked arithmetic -/

/-- An integer of sixty-four bits, unless it differs from the exact result. -/
def checked? (wrapped : Int64) (exact : Int) : Option Int64 :=
  if wrapped.toInt = exact then some wrapped else none

/-- Has a quotient no value?  It has none by zero, and the least integer has none by minus one. -/
abbrev IsUndefinedQuotient (left right : Int64) : Prop :=
  right = 0 ∨ left = Int64.minValue ∧ right = -1

/-- The value of an operator on integers of sixty-four bits, if it has one there. -/
def BinaryOp.checked? (op : BinaryOp) (left right : Int64) : Option Int64 :=
  match op with
  | .add => Adql.checked? (left + right) (left.toInt + right.toInt)
  | .sub => Adql.checked? (left - right) (left.toInt - right.toInt)
  | .mul => Adql.checked? (left * right) (left.toInt * right.toInt)
  | .div => if IsUndefinedQuotient left right then none else some (left / right)
  | .mod => if IsUndefinedQuotient left right then none else some (left % right)
  | .bitAnd => some (left &&& right)
  | .bitOr => some (left ||| right)
  | .bitXor => some (left ^^^ right)
  | _ => none

/-- The value of an expression of integers under an assignment to its columns, if it has one. -/
def Expr.evaluate? (assignment : QualifiedName → Int64) : Expr → Option Int64
  | .literal (.integer value) => some value
  | .column name => some (assignment name)
  | .binary left op right =>
    (left.evaluate? assignment).bind fun a =>
      (right.evaluate? assignment).bind fun b => op.checked? a b
  | .unary .neg operand =>
    (operand.evaluate? assignment).bind fun value => Adql.checked? (-value) (-value.toInt)
  | .paren inner => inner.evaluate? assignment
  | _ => none

/-- Expressions of integer literals, columns, arithmetic and bitwise operators, negation and
parentheses. -/
inductive Expr.IsArithmetic : Expr → Prop
  | literal (value : Int64) : IsArithmetic (.literal (.integer value))
  | column (name : QualifiedName) : IsArithmetic (.column name)
  | binary {left right : Expr} {op : BinaryOp} :
      op.family = .arithmetic ∨ op.family = .bitwise → IsArithmetic left → IsArithmetic right →
      IsArithmetic (.binary left op right)
  | neg {operand : Expr} : IsArithmetic operand → IsArithmetic (.unary .neg operand)
  | paren {inner : Expr} : IsArithmetic inner → IsArithmetic (.paren inner)

/-! ### Folded operators compute checked values -/

/-- An integer is one of sixty-four bits exactly if they hold it. -/
theorem int64?_eq_checked? (value : Int) : int64? value = checked? (Int64.ofInt value) value := by
  unfold int64? checked?
  congr 1
  refine propext ⟨fun ⟨least, greatest⟩ => ?_, fun held => ?_⟩
  · exact Int64.toInt_ofInt_of_le least (Int.lt_of_le_sub_one greatest)
  · rw [← held]
    exact ⟨Int64.minValue_le_toInt _, Int.le_sub_one_of_lt (Int64.toInt_lt _)⟩

/-- The integer in sixty-four bits is found in them. -/
theorem int64?_toInt (value : Int64) : int64? value.toInt = some value := by
  rw [int64?_eq_checked?, Int64.ofInt_toInt, checked?, if_pos rfl]

/-- The opposite of an integer is checked. -/
theorem int64?_neg (value : Int64) : int64? (-value.toInt) = checked? (-value) (-value.toInt) := by
  rw [int64?_eq_checked?, Int64.ofInt_neg, Int64.ofInt_toInt]

/-- A quotient that is defined is exact. -/
theorem toInt_div_of_defined {left right : Int64} (defined : ¬IsUndefinedQuotient left right) :
    (left / right).toInt = left.toInt.tdiv right.toInt := by
  by_cases least : left = Int64.minValue
  · exact Int64.toInt_div_of_ne_right _ _ fun minus => defined (.inr ⟨least, minus⟩)
  · exact Int64.toInt_div_of_ne_left _ _ least

/-- A quotient by something else than zero is an integer of sixty-four bits if it is defined. -/
theorem int64?_tdiv {left right : Int64} (nonzero : right ≠ 0) :
    int64? (left.toInt.tdiv right.toInt) =
      if IsUndefinedQuotient left right then none else some (left / right) := by
  split
  next undefined =>
    obtain ⟨rfl, rfl⟩ := undefined.resolve_left nonzero
    decide
  next defined => rw [← toInt_div_of_defined defined, int64?_toInt]

/-- The operators that fold integers compute the checked values. -/
theorem Folding.integerValue?_eq (op : BinaryOp) (left right : Int64) :
    integerValue? op left right = op.checked? left right := by
  have zero : right.toInt = 0 ↔ right = 0 := by rw [← Int64.toInt_zero, Int64.toInt_inj]
  cases op
  case add => simp [integerValue?, BinaryOp.checked?, int64?_eq_checked?, Int64.ofInt_add]
  case sub => simp [integerValue?, BinaryOp.checked?, int64?_eq_checked?, Int64.ofInt_sub]
  case mul => simp [integerValue?, BinaryOp.checked?, int64?_eq_checked?, Int64.ofInt_mul]
  case div =>
    by_cases nonzero : right = 0
    · simp [integerValue?, BinaryOp.checked?, nonzero]
    · simp [integerValue?, BinaryOp.checked?, zero, nonzero, int64?_tdiv nonzero]
  case mod =>
    by_cases nonzero : right = 0
    · simp [integerValue?, BinaryOp.checked?, nonzero]
    · simp only [integerValue?, BinaryOp.checked?, zero, nonzero, int64?_tdiv nonzero,
        ← Int64.toInt_mod, int64?_toInt, if_false]
      split <;> rfl
  all_goals rfl

/-! ### One step -/

namespace Expr

variable (assignment : QualifiedName → Int64)

/-- A literal that two literals are worth evaluates like the operator between them. -/
theorem evaluate?_of_binaryValue? {op : BinaryOp} {left right value : Literal}
    (worth : binaryValue? op left right = some value) :
    (Expr.literal value).evaluate? assignment =
      (Expr.binary (.literal left) op (.literal right)).evaluate? assignment := by
  cases left <;> cases right <;>
    simp only [binaryValue?, Option.map_eq_some_iff, Option.ite_none_right_eq_some,
      reduceCtorEq] at worth
  case integer.integer a b =>
    obtain ⟨result, worth, rfl⟩ := worth
    exact (worth ▸ (integerValue?_eq op a b).symm).symm
  case string.string => obtain ⟨_, ⟨rfl⟩⟩ := worth; rfl
  all_goals obtain ⟨_, _, rfl⟩ := worth; rfl

/-- A literal that a prefix operator makes of a literal evaluates like the operator before it. -/
theorem evaluate?_of_unaryValue? {op : UnaryOp} {operand value : Literal}
    (worth : unaryValue? op operand = some value) :
    (Expr.literal value).evaluate? assignment =
      (Expr.unary op (.literal operand)).evaluate? assignment := by
  cases op <;> cases operand <;>
    simp only [unaryValue?, Option.map_eq_some_iff, Option.some.injEq, reduceCtorEq] at worth
  case neg.integer n =>
    obtain ⟨result, worth, rfl⟩ := worth
    exact (worth ▸ (int64?_neg n).symm).symm
  all_goals subst worth; rfl

/-- The literal that an expression is worth evaluates like the expression. -/
theorem evaluate?_simplified (expr : Expr) :
    expr.simplified.evaluate? assignment = expr.evaluate? assignment := by
  unfold simplified value?
  split
  case h_1 left op right =>
    cases worth : binaryValue? op left right with
    | none => rfl
    | some value => exact evaluate?_of_binaryValue? assignment worth
  case h_2 op operand =>
    cases worth : unaryValue? op operand with
    | none => rfl
    | some value => exact evaluate?_of_unaryValue? assignment worth
  all_goals rfl

/-! ### Columns -/

/-- The columns of a binary operator are those of its operands, if the collector puts the columns
of the right one behind those that it has seen. -/
theorem columns_binary {left right : Expr} (op : BinaryOp)
    (collected : ∀ seen : Array QualifiedName,
      ((Observer.columns.seeExpr right).run seen).2.toList = seen.toList ++ right.columns) :
    (binary left op right).columns = left.columns ++ right.columns :=
  collected ((Observer.columns.seeExpr left).run #[]).2

/-- The columns of an expression of integers are collected behind those seen before. -/
theorem IsArithmetic.see_columns {expr : Expr} (arithmetic : expr.IsArithmetic)
    (seen : Array QualifiedName) :
    ((Observer.columns.seeExpr expr).run seen).2.toList = seen.toList ++ expr.columns := by
  induction arithmetic generalizing seen with
  | literal => exact (List.append_nil _).symm
  | column => exact Array.toList_push
  | @binary left right op _ _ _ first second =>
    rw [columns_binary op second, ← List.append_assoc, ← first]
    exact second ((Observer.columns.seeExpr left).run seen).2
  | neg _ operand => exact operand seen
  | paren _ inner => exact inner seen

/-! ### Whole expressions -/

/-- The literal that an expression is, if it is one. -/
def literal? : Expr → Option Literal
  | .literal value => some value
  | _ => none

/-- The literal that an expression is makes up the expression. -/
theorem literal?_eq_some {expr : Expr} {value : Literal} :
    expr.literal? = some value ↔ expr = .literal value := by
  cases expr <;> simp [literal?]

/-- A binary operator is worth what its operands are worth together, if both are literals. -/
theorem literal?_simplified_binary (left : Expr) (op : BinaryOp) (right : Expr) :
    (Expr.binary left op right).simplified.literal? =
      left.literal?.bind fun a => right.literal?.bind fun b => binaryValue? op a b := by
  have worth : value? (.binary left op right) =
      left.literal?.bind fun a => right.literal?.bind fun b => binaryValue? op a b := by
    cases left with
    | literal => cases right <;> rfl
    | _ => rfl
  rw [← worth, simplified]
  cases value? (.binary left op right) <;> rfl

/-- A prefix operator is worth what it makes of its operand, if that is a literal. -/
theorem literal?_simplified_unary (op : UnaryOp) (operand : Expr) :
    (Expr.unary op operand).simplified.literal? = operand.literal?.bind (unaryValue? op) := by
  have worth : value? (.unary op operand) = operand.literal?.bind (unaryValue? op) := by
    cases operand <;> rfl
  rw [← worth, simplified]
  cases value? (.unary op operand) <;> rfl

/-- Parentheses are worth the literal in them. -/
theorem literal?_simplified_paren (inner : Expr) :
    (Expr.paren inner).simplified.literal? = inner.literal? := by
  cases inner <;> rfl

/-- What is worth an expression of integers is an integer. -/
theorem IsArithmetic.exists_integer {expr : Expr} (arithmetic : expr.IsArithmetic)
    {value : Literal} (worth : expr.simplified.literal? = some value) :
    ∃ result, value = .integer result := by
  have literal {expr : Expr} (arithmetic : expr.IsArithmetic) {value : Literal}
      (is : expr.literal? = some value) : ∃ result, value = .integer result := by
    rw [literal?_eq_some] at is
    subst is
    cases arithmetic with
    | literal result => exact ⟨result, rfl⟩
  cases arithmetic with
  | literal result => exact ⟨result, (Option.some.inj worth).symm⟩
  | column => exact nomatch worth
  | binary _ left right =>
    rw [literal?_simplified_binary, Option.bind_eq_some_iff] at worth
    obtain ⟨a, isLeft, worth⟩ := worth
    obtain ⟨b, isRight, worth⟩ := Option.bind_eq_some_iff.1 worth
    obtain ⟨a, rfl⟩ := literal left isLeft
    obtain ⟨b, rfl⟩ := literal right isRight
    obtain ⟨result, -, is⟩ := Option.map_eq_some_iff.1 worth
    exact ⟨result, is.symm⟩
  | neg operand =>
    rw [literal?_simplified_unary, Option.bind_eq_some_iff] at worth
    obtain ⟨n, isOperand, worth⟩ := worth
    obtain ⟨n, rfl⟩ := literal operand isOperand
    obtain ⟨result, -, is⟩ := Option.map_eq_some_iff.1 worth
    exact ⟨result, is.symm⟩
  | paren inner =>
    rw [literal?_simplified_paren] at worth
    exact literal inner worth

/-- Simplifying an expression of integers leaves one. -/
theorem IsArithmetic.simplified {expr : Expr} (arithmetic : expr.IsArithmetic) :
    expr.simplified.IsArithmetic := by
  cases worth : value? expr with
  | none =>
    rw [Expr.simplified, worth]
    exact arithmetic
  | some value =>
    have is : expr.simplified = .literal value := by rw [Expr.simplified, worth]; rfl
    obtain ⟨result, rfl⟩ := arithmetic.exists_integer (literal?_eq_some.2 is)
    exact is ▸ .literal result

/-- Folding an expression of integers leaves one. -/
theorem IsArithmetic.reduced {expr : Expr} (arithmetic : expr.IsArithmetic) :
    expr.reduced.IsArithmetic := by
  induction arithmetic with
  | literal value => exact .literal value
  | column name => exact .column name
  | binary family _ _ left right => exact (IsArithmetic.binary family left right).simplified
  | neg _ operand => exact operand.neg.simplified
  | paren _ inner => exact inner.paren.simplified

/-- Folding an expression of integers leaves one that evaluates to the same. -/
theorem IsArithmetic.evaluate?_reduced {expr : Expr} (arithmetic : expr.IsArithmetic) :
    expr.reduced.evaluate? assignment = expr.evaluate? assignment := by
  induction arithmetic with
  | literal | column => rfl
  | binary _ _ _ left right =>
    rw [reduced_binary, evaluate?_simplified]
    simp only [evaluate?, left, right]
  | neg _ operand =>
    rw [reduced_unary, evaluate?_simplified]
    simp only [evaluate?, operand]
  | paren _ inner => rw [reduced_paren, evaluate?_simplified, evaluate?, inner, evaluate?]

/-- An expression of integers without columns is folded to the literal of its value, and to no
literal if it has none. -/
theorem IsArithmetic.literal?_reduced {expr : Expr} (arithmetic : expr.IsArithmetic)
    (closed : expr.columns = []) :
    expr.reduced.literal? = (expr.evaluate? assignment).map .integer := by
  induction arithmetic with
  | literal => rfl
  | column => exact nomatch closed
  | @binary left right op _ _ second first' second' =>
    rw [columns_binary op second.see_columns, List.append_eq_nil_iff] at closed
    rw [reduced_binary, literal?_simplified_binary, first' closed.1, second' closed.2, evaluate?]
    cases left.evaluate? assignment with
    | none => rfl
    | some a =>
      cases right.evaluate? assignment with
      | none => rfl
      | some b => exact congrArg (Option.map _) (integerValue?_eq op a b)
  | @neg operand _ negated =>
    rw [reduced_unary, literal?_simplified_unary, negated closed, evaluate?]
    cases operand.evaluate? assignment with
    | none => rfl
    | some value => exact congrArg (Option.map _) (int64?_neg value)
  | paren _ inner => rw [reduced_paren, literal?_simplified_paren, inner closed, evaluate?]

/-- Constant folding keeps the meaning of integer expressions: what it leaves of one is one again,
which evaluates to the same under every assignment to the columns.  It is complete on those without
columns: it leaves a literal exactly of those that have a value, and then the literal of that
value. -/
theorem IsArithmetic.evaluate?_folded {expr : Expr} (arithmetic : expr.IsArithmetic) :
    expr.folded.1.IsArithmetic ∧
    (∀ assignment, expr.folded.1.evaluate? assignment = expr.evaluate? assignment) ∧
    (expr.columns = [] → ∀ assignment,
      ((∃ value, expr.folded.1 = .literal value) ↔ (expr.evaluate? assignment).isSome) ∧
      ∀ value, expr.evaluate? assignment = some value →
        expr.folded.1 = .literal (.integer value)) := by
  rw [folded_fst]
  refine ⟨arithmetic.reduced, fun assignment => arithmetic.evaluate?_reduced assignment,
    fun closed assignment => ?_⟩
  have literal := arithmetic.literal?_reduced assignment closed
  refine ⟨?_, fun value worth => ?_⟩
  · simp only [← literal?_eq_some, ← Option.isSome_iff_exists, literal, Option.isSome_map]
  · rw [worth] at literal
    exact literal?_eq_some.1 literal

/-- Seven halves and minus five make minus two, and what is added to the opposite of the least
integer is left as a sum. -/
theorem IsArithmetic.evaluate?_folded_sums :
    (Expr.binary (.paren (.binary (.integer 7) .div (.integer 2))) .add
        (.unary .neg (.integer 5))).folded.1 = .integer (-2) ∧
      ¬∃ value, (Expr.binary (.unary .neg (.integer Int64.minValue)) .add
        (.paren (.integer 0))).folded.1 = .literal value :=
  ⟨((evaluate?_folded (.binary (.inl rfl)
      (.paren (.binary (.inl rfl) (.literal 7) (.literal 2))) (.neg (.literal 5)))).2.2 rfl
        fun _ => 0).2 (-2) (by decide),
    fun folded => nomatch ((evaluate?_folded (.binary (.inl rfl)
      (.neg (.literal Int64.minValue)) (.paren (.literal 0)))).2.2 rfl fun _ => 0).1.1 folded⟩

end Expr

end Adql
