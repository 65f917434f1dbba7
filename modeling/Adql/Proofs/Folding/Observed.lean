import Adql.Traversal.Passes
import Adql.Proofs.Folding.Normal

/-!
# Observing folded trees

An observer that takes no notice of operators, parentheses and literals sees the same in a folded
tree as in the tree itself: folding replaces nothing else.  What is shown here is a little more.  If
what one observer does at the nodes of the folded tree is related to what another one does at the
nodes of the tree itself, then what they do in the whole trees is (`Observer.seeQuery_reduced`).
-/

namespace Adql

/-- A node with folded parts. -/
def Node.reduced : Node → Node
  | .query tree => .query tree.reduced
  | .queryBody body => .queryBody body.reduced
  | .querySpec spec => .querySpec spec.reduced
  | .subquery tree => .subquery tree.reduced
  | .selectItem item => .selectItem item.reduced
  | .table tree => .table tree.reduced
  | .join left kind natural right constraint =>
    .join left.reduced kind natural right.reduced constraint.reduced
  | .expr tree => .expr tree.reduced
  | .literal value => .literal value
  | .column name => .column name
  | .binary left op right => .binary left.reduced op right.reduced
  | .unary op operand => .unary op operand.reduced
  | .call name arguments distinct => .call name (Expr.reducedList arguments) distinct
  | .geometry function arguments => .geometry function (Expr.reducedList arguments)

/-- The equality of actions is kept by doing one thing after another. -/
def Simulation.equality (m : Type → Type) [Monad m] : Simulation m m where
  relates := Eq
  of_pure _ := rfl
  of_bind same alike := by rw [same, funext alike]

variable {m n : Type → Type} [Monad m] [Monad n]

/-- The observer takes no notice of what folding replaces. -/
structure Observer.IgnoresOperators (observe : Observer m) : Prop where
  /-- An expression is no more than what it is. -/
  expr : ∀ expr walk, observe (.expr expr) walk = walk
  /-- Nothing is seen in a literal. -/
  literal : ∀ value, observe (.literal value) (pure ()) = pure ()
  /-- A binary operator is no more than its operands. -/
  binary : ∀ left op right walk, observe (.binary left op right) walk = walk
  /-- A prefix operator is no more than its operand. -/
  unary : ∀ op operand walk, observe (.unary op operand) walk = walk

/-- At the nodes of folded trees, the first observer does what is related to what the second one does
at the nodes of the trees themselves. -/
def Observer.SeesFolded (simulation : Simulation m n) (first : Observer m) (second : Observer n) :
    Prop :=
  ∀ (node : Node) (walk : m Unit) (walk' : n Unit), simulation.relates walk walk' →
    simulation.relates (first node.reduced walk) (second node walk')

/-- As much is seen of the literal that an expression is worth as of the expression. -/
theorem Expr.walk_simplified [LawfulMonad m] {observe : Observer m}
    (ignores : observe.IgnoresOperators) (expr : Expr) :
    expr.simplified.walk observe = expr.walk observe := by
  have nothing : ∀ value, (Expr.literal value).walk observe = pure () := ignores.literal
  cases worth : Folding.value? expr with
  | none => rw [simplified_of_none worth]
  | some value =>
    rw [simplified_of_some worth, nothing]
    unfold Folding.value? at worth
    split at worth
    · simp [Expr.walk, ignores.binary, ignores.expr, ignores.literal]
    · simp [Expr.walk, ignores.unary, ignores.expr, ignores.literal]
    · simp [Expr.walk, ignores.expr, ignores.literal]
    · cases worth

section

set_option linter.unusedSectionVars false

variable [LawfulMonad m] {simulation : Simulation m n} {first : Observer m} {second : Observer n}
variable (ignores : first.IgnoresOperators) (alike : Observer.SeesFolded simulation first second)
include ignores alike

open Simulation (of_pure of_bind)

/-- An expression is seen like the folded one, if its parts are. -/
theorem Expr.see_reduced {expr : Expr}
    (parts : simulation.relates (expr.rebuilt.walk first) (expr.walk second)) :
    simulation.relates (first (.expr expr.reduced) (expr.reduced.walk first))
      (second (.expr expr) (expr.walk second)) := by
  refine alike (.expr expr) _ _ ?_
  rwa [Expr.reduced_eq, Expr.walk_simplified ignores]

/-- The columns that a join names are seen alike. -/
theorem Identifier.walkColumns_reduced :
    ∀ names : List Identifier, simulation.relates (Identifier.walkColumns first names)
      (Identifier.walkColumns second names)
  | [] => of_pure _ _
  | name :: rest =>
    of_bind _ (alike (.column ⟨[], name⟩) _ _ (of_pure _ _)) fun _ =>
    Identifier.walkColumns_reduced rest

mutual

/-- The parts of an expression are seen like the folded ones. -/
theorem Expr.walk_rebuilt :
    ∀ expr : Expr, simulation.relates (expr.rebuilt.walk first) (expr.walk second)
  | .literal value => alike (.literal value) _ _ (of_pure _ _)
  | .column name => alike (.column name) _ _ (of_pure _ _)
  | .wildcard _ => of_pure _ _
  | .binary left op right =>
    alike (.binary left op right) _ _ <|
      of_bind _ (Expr.see_reduced ignores alike left.walk_rebuilt) fun _ =>
      Expr.see_reduced ignores alike right.walk_rebuilt
  | .unary op operand =>
    alike (.unary op operand) _ _ (Expr.see_reduced ignores alike operand.walk_rebuilt)
  | .call name arguments distinct =>
    alike (.call name arguments distinct) _ _ (Expr.walkList_reduced arguments)
  | .geometry function arguments =>
    alike (.geometry function arguments) _ _ (Expr.walkList_reduced arguments)
  | .isNull operand _ => Expr.see_reduced ignores alike operand.walk_rebuilt
  | .between operand low high _ =>
    of_bind _ (Expr.see_reduced ignores alike operand.walk_rebuilt) fun _ =>
    of_bind _ (Expr.see_reduced ignores alike low.walk_rebuilt) fun _ =>
    Expr.see_reduced ignores alike high.walk_rebuilt
  | .inList operand items _ =>
    of_bind _ (Expr.see_reduced ignores alike operand.walk_rebuilt) fun _ =>
    Expr.walkList_reduced items
  | .inQuery operand query _ =>
    of_bind _ (Expr.see_reduced ignores alike operand.walk_rebuilt) fun _ =>
    alike (.subquery query) _ _ (alike (.query query) _ _ query.walk_reduced)
  | .like operand pattern escape _ _ =>
    of_bind _ (Expr.see_reduced ignores alike operand.walk_rebuilt) fun _ =>
    of_bind _ (Expr.see_reduced ignores alike pattern.walk_rebuilt) fun _ =>
    Expr.walkOption_reduced escape
  | .exists query => alike (.subquery query) _ _ (alike (.query query) _ _ query.walk_reduced)
  | .subquery query => alike (.subquery query) _ _ (alike (.query query) _ _ query.walk_reduced)
  | .case subject branches otherwise =>
    of_bind _ (Expr.walkOption_reduced subject) fun _ =>
    of_bind _ (Branch.walkList_reduced branches) fun _ => Expr.walkOption_reduced otherwise
  | .cast operand _ => Expr.see_reduced ignores alike operand.walk_rebuilt
  | .paren inner => Expr.see_reduced ignores alike inner.walk_rebuilt

/-- Expressions are seen like the folded ones. -/
theorem Expr.walkList_reduced :
    ∀ exprs : List Expr, simulation.relates (Expr.walkList first (Expr.reducedList exprs))
      (Expr.walkList second exprs)
  | [] => of_pure _ _
  | expr :: rest =>
    of_bind _ (Expr.see_reduced ignores alike expr.walk_rebuilt) fun _ =>
    Expr.walkList_reduced rest

/-- An expression that may be missing is seen like the folded one. -/
theorem Expr.walkOption_reduced :
    ∀ expr? : Option Expr, simulation.relates (Expr.walkOption first (Expr.reducedOption expr?))
      (Expr.walkOption second expr?)
  | none => of_pure _ _
  | some expr => Expr.see_reduced ignores alike expr.walk_rebuilt

/-- The parts of a branch are seen like the folded ones. -/
theorem Branch.walk_reduced :
    ∀ branch : Branch, simulation.relates (branch.reduced.walk first) (branch.walk second)
  | ⟨condition, result⟩ =>
    of_bind _ (Expr.see_reduced ignores alike condition.walk_rebuilt) fun _ =>
    Expr.see_reduced ignores alike result.walk_rebuilt

/-- Branches are seen like the folded ones. -/
theorem Branch.walkList_reduced :
    ∀ branches : List Branch,
      simulation.relates (Branch.walkList first (Branch.reducedList branches))
        (Branch.walkList second branches)
  | [] => of_pure _ _
  | branch :: rest =>
    of_bind _ branch.walk_reduced fun _ => Branch.walkList_reduced rest

/-- The expression of a sort key is seen like the folded one. -/
theorem SortKey.walk_reduced :
    ∀ key : SortKey, simulation.relates (key.reduced.walk first) (key.walk second)
  | ⟨expr, _⟩ => Expr.see_reduced ignores alike expr.walk_rebuilt

/-- Sort keys are seen like the folded ones. -/
theorem SortKey.walkList_reduced :
    ∀ keys : List SortKey, simulation.relates (SortKey.walkList first (SortKey.reducedList keys))
      (SortKey.walkList second keys)
  | [] => of_pure _ _
  | key :: rest => of_bind _ key.walk_reduced fun _ => SortKey.walkList_reduced rest

/-- The expression of a select item is seen like the folded one. -/
theorem SelectItem.walk_reduced :
    ∀ item : SelectItem, simulation.relates (item.reduced.walk first) (item.walk second)
  | ⟨expr, _⟩ => Expr.see_reduced ignores alike expr.walk_rebuilt

/-- Select items are seen like the folded ones. -/
theorem SelectItem.walkList_reduced :
    ∀ items : List SelectItem,
      simulation.relates (SelectItem.walkList first (SelectItem.reducedList items))
        (SelectItem.walkList second items)
  | [] => of_pure _ _
  | item :: rest =>
    of_bind _ (alike (.selectItem item) _ _ item.walk_reduced) fun _ =>
    SelectItem.walkList_reduced rest

/-- What matches the rows of a join is seen like what is folded. -/
theorem JoinConstraint.walk_reduced :
    ∀ constraint : JoinConstraint,
      simulation.relates (constraint.reduced.walk first) (constraint.walk second)
  | .on condition => Expr.see_reduced ignores alike condition.walk_rebuilt
  | .using names => Identifier.walkColumns_reduced ignores alike names
  | .none => of_pure _ _

/-- The parts of a table are seen like the folded ones. -/
theorem TableRef.walk_reduced :
    ∀ table : TableRef, simulation.relates (table.reduced.walk first) (table.walk second)
  | .table _ _ => of_pure _ _
  | .subquery query _ => alike (.subquery query) _ _ (alike (.query query) _ _ query.walk_reduced)
  | .join left kind natural right constraint =>
    alike (.join left kind natural right constraint) _ _ <|
      of_bind _ (alike (.table left) _ _ left.walk_reduced) fun _ =>
      of_bind _ (alike (.table right) _ _ right.walk_reduced) fun _ => constraint.walk_reduced
  | .nested inner => alike (.table inner) _ _ inner.walk_reduced

/-- Tables are seen like the folded ones. -/
theorem TableRef.walkList_reduced :
    ∀ tables : List TableRef,
      simulation.relates (TableRef.walkList first (TableRef.reducedList tables))
        (TableRef.walkList second tables)
  | [] => of_pure _ _
  | table :: rest =>
    of_bind _ (alike (.table table) _ _ table.walk_reduced) fun _ =>
    TableRef.walkList_reduced rest

/-- The parts of a specification are seen like the folded ones. -/
theorem QuerySpec.walk_reduced :
    ∀ spec : QuerySpec, simulation.relates (spec.reduced.walk first) (spec.walk second)
  | ⟨_, _, items, tables, condition, groups, having, keys, _⟩ =>
    of_bind _ (SelectItem.walkList_reduced items) fun _ =>
    of_bind _ (TableRef.walkList_reduced tables) fun _ =>
    of_bind _ (Expr.walkOption_reduced condition) fun _ =>
    of_bind _ (Expr.walkList_reduced groups) fun _ =>
    of_bind _ (Expr.walkOption_reduced having) fun _ => SortKey.walkList_reduced keys

/-- The parts of a query body are seen like the folded ones. -/
theorem QueryBody.walk_reduced :
    ∀ body : QueryBody, simulation.relates (body.reduced.walk first) (body.walk second)
  | .spec spec => alike (.querySpec spec) _ _ spec.walk_reduced
  | .setOperation _ _ left right =>
    of_bind _ (alike (.queryBody left) _ _ left.walk_reduced) fun _ =>
    alike (.queryBody right) _ _ right.walk_reduced
  | .nested query => alike (.query query) _ _ query.walk_reduced

/-- The query of a named query is seen like the folded one. -/
theorem CommonTable.walk_reduced :
    ∀ table : CommonTable, simulation.relates (table.reduced.walk first) (table.walk second)
  | ⟨_, _, query⟩ => alike (.query query) _ _ query.walk_reduced

/-- Named queries are seen like the folded ones. -/
theorem CommonTable.walkList_reduced :
    ∀ tables : List CommonTable,
      simulation.relates (CommonTable.walkList first (CommonTable.reducedList tables))
        (CommonTable.walkList second tables)
  | [] => of_pure _ _
  | table :: rest => of_bind _ table.walk_reduced fun _ => CommonTable.walkList_reduced rest

/-- The parts of a query are seen like the folded ones. -/
theorem Query.walk_reduced :
    ∀ query : Query, simulation.relates (query.reduced.walk first) (query.walk second)
  | ⟨commonTables, body, keys, _⟩ =>
    of_bind _ (CommonTable.walkList_reduced commonTables) fun _ =>
    of_bind _ (alike (.queryBody body) _ _ body.walk_reduced) fun _ => SortKey.walkList_reduced keys

end

/-- What the first observer does in the folded query is related to what the second one does in the
query itself. -/
theorem Observer.seeQuery_reduced (query : Query) :
    simulation.relates (first.seeQuery query.reduced) (second.seeQuery query) :=
  alike (.query query) _ _ (query.walk_reduced ignores alike)

end

/-! ### Columns -/

/-- The collector of columns takes no notice of operators. -/
theorem Observer.columns_ignoresOperators : Observer.columns.IgnoresOperators where
  expr _ _ := rfl
  literal _ := rfl
  binary _ _ _ _ := rfl
  unary _ _ _ := rfl

/-- The collector of columns does the same at a node with folded parts. -/
theorem Observer.columns_seesFolded :
    Observer.SeesFolded (.equality _) Observer.columns Observer.columns := by
  intro node walk walk' same
  cases node with
  | column name => rfl
  | _ => exact same

/-- Folding touches no column. -/
theorem Query.columns_reduced (query : Query) : query.reduced.columns = query.columns := by
  have same := Observer.seeQuery_reduced Observer.columns_ignoresOperators
    Observer.columns_seesFolded query
  change Observer.columns.seeQuery query.reduced = Observer.columns.seeQuery query at same
  rw [columns, same, columns]

/-- Folding touches no column of an expression. -/
theorem Expr.columns_reduced (expr : Expr) : expr.reduced.columns = expr.columns := by
  have same := Expr.see_reduced Observer.columns_ignoresOperators Observer.columns_seesFolded
    (expr.walk_rebuilt Observer.columns_ignoresOperators Observer.columns_seesFolded)
  change Observer.columns.seeExpr expr.reduced = Observer.columns.seeExpr expr at same
  rw [columns, same, columns]

end Adql
