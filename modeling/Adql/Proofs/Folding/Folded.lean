import Adql.Folding
import Adql.Proofs.Folding.Simulation

/-!
# Folded trees

`Query.reduced` and `Expr.reduced` are what constant folding leaves of a tree, without the count of
what it replaced: a pass that does not count (`Folding.uncounted`) puts the same in the place of
every node as the counting one.  The equations of the uncounted pass say how an expression is folded
from its folded parts; only operators and parentheses can then be worth a literal.
-/

namespace Adql

/-- The literal that an expression is worth, or the expression itself. -/
def Expr.simplified (expr : Expr) : Expr :=
  (Folding.value? expr).elim expr .literal

namespace Folding

/-- The pass that folds, and does not count. -/
def uncounted : Transformer Id := fun node rebuild =>
  match node with
  | .expr _ => (Id.run rebuild).simplified
  | _ => rebuild

/-- A counting action has the value of an action that does not count, whatever was counted. -/
def ignoringCount : Simulation (StateM Nat) Id where
  relates action value := ∀ count, (action.run count).1 = Id.run value
  of_pure _ _ := rfl
  of_bind related after count := by
    rw [StateT.run_bind]
    exact (after _ _).trans (by rw [related count]; rfl)

/-- Simplifying an expression has the same value whether it is counted or not. -/
theorem simplify_fst (expr : Expr) (count : Nat) :
    ((simplify expr).run count).1 = expr.simplified := by
  unfold simplify Expr.simplified
  cases value? expr <;> rfl

/-- Both passes put the same in the place of every node. -/
theorem transformer_simulates : Transformer.Simulates ignoringCount transformer uncounted := by
  intro node rebuild rebuild' related
  cases node with
  | expr =>
    intro count
    exact (simplify_fst _ _).trans (congrArg Expr.simplified (related count))
  | _ => exact related

end Folding

open Folding

namespace Expr

/-- What folding leaves of an expression. -/
def reduced (expr : Expr) : Expr :=
  Id.run (uncounted.applyToExpr expr)

/-- The folded expression. -/
theorem folded_fst (expr : Expr) : expr.folded.1 = expr.reduced :=
  Transformer.applyToExpr_simulates transformer_simulates expr 0

/-- A literal is left as it is. -/
@[simp] theorem reduced_literal (value : Literal) : (literal value).reduced = literal value := rfl

/-- A column is left as it is. -/
@[simp] theorem reduced_column (name : QualifiedName) : (column name).reduced = column name := rfl

/-- A binary operator is simplified once its operands are folded. -/
theorem reduced_binary (left : Expr) (op : BinaryOp) (right : Expr) :
    (binary left op right).reduced = (binary left.reduced op right.reduced).simplified := rfl

/-- A prefix operator is simplified once its operand is folded. -/
theorem reduced_unary (op : UnaryOp) (operand : Expr) :
    (unary op operand).reduced = (unary op operand.reduced).simplified := rfl

/-- Parentheses are simplified once their content is folded. -/
theorem reduced_paren (inner : Expr) : (paren inner).reduced = (paren inner.reduced).simplified :=
  rfl

end Expr

/-- What folding leaves of a query. -/
def Query.reduced (query : Query) : Query :=
  Id.run (uncounted.applyToQuery query)

/-- The folded query. -/
theorem Query.folded_fst (query : Query) : query.folded.1 = query.reduced :=
  Transformer.applyToQuery_simulates transformer_simulates query 0

end Adql
