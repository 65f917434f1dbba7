import Adql.Traversal.Transformer

/-!
# Transformers that do the same

Two transformers may run in different monads and still put the same in the place of every node: one
of them counts or logs what it does, say, and the other one does not.  If a relation between the
actions of two monads is kept by doing nothing and by doing one thing after another
(`Simulation`), and two transformers keep it at each node (`Transformer.Simulates`), then the
relation holds between the two passes over a whole tree.
-/

namespace Adql

/-- A relation between the actions of two monads that is kept by doing one thing after another. -/
structure Simulation (m n : Type → Type) [Monad m] [Monad n] where
  /-- The relation. -/
  relates : {α : Type} → m α → n α → Prop
  /-- Doing nothing is related to doing nothing. -/
  of_pure : ∀ {α : Type} (value : α), relates (pure value) (pure value)
  /-- Related actions may be followed by related actions. -/
  of_bind : ∀ {α β : Type} {first : m α} {second : n α} {next : α → m β} {after : α → n β},
    relates first second → (∀ value, relates (next value) (after value)) →
    relates (first >>= next) (second >>= after)

variable {m n : Type → Type} [Monad m] [Monad n]

/-- From related rebuildings of a node, the transformers make related actions. -/
def Transformer.Simulates (simulation : Simulation m n) (first : Transformer m)
    (second : Transformer n) : Prop :=
  ∀ (node : Node) (rebuild : m node.Result) (rebuild' : n node.Result),
    simulation.relates rebuild rebuild' →
    simulation.relates (first node rebuild) (second node rebuild')

section

set_option linter.unusedSectionVars false

variable {simulation : Simulation m n} {first : Transformer m} {second : Transformer n}
variable (alike : Transformer.Simulates simulation first second)
include alike

open Simulation (of_pure of_bind)

mutual

/-- The rebuildings of an expression are related. -/
theorem Expr.rebuild_simulates :
    ∀ expr : Expr, simulation.relates (expr.rebuild first) (expr.rebuild second)
  | .literal value => alike (.literal value) _ _ (of_pure _ _)
  | .column name => alike (.column name) _ _ (of_pure _ _)
  | .wildcard _ => of_pure _ _
  | .binary left op right =>
    alike (.binary left op right) _ _ <|
      of_bind _ (alike (.expr left) _ _ left.rebuild_simulates) fun _ =>
      of_bind _ (alike (.expr right) _ _ right.rebuild_simulates) fun _ => of_pure _ _
  | .unary op operand =>
    alike (.unary op operand) _ _ <|
      of_bind _ (alike (.expr operand) _ _ operand.rebuild_simulates) fun _ => of_pure _ _
  | .call name arguments distinct =>
    alike (.call name arguments distinct) _ _ <|
      of_bind _ (Expr.rebuildList_simulates arguments) fun _ => of_pure _ _
  | .geometry function arguments =>
    alike (.geometry function arguments) _ _ <|
      of_bind _ (Expr.rebuildList_simulates arguments) fun _ => of_pure _ _
  | .isNull operand _ =>
    of_bind _ (alike (.expr operand) _ _ operand.rebuild_simulates) fun _ => of_pure _ _
  | .between operand low high _ =>
    of_bind _ (alike (.expr operand) _ _ operand.rebuild_simulates) fun _ =>
    of_bind _ (alike (.expr low) _ _ low.rebuild_simulates) fun _ =>
    of_bind _ (alike (.expr high) _ _ high.rebuild_simulates) fun _ => of_pure _ _
  | .inList operand items _ =>
    of_bind _ (alike (.expr operand) _ _ operand.rebuild_simulates) fun _ =>
    of_bind _ (Expr.rebuildList_simulates items) fun _ => of_pure _ _
  | .inQuery operand query _ =>
    of_bind _ (alike (.expr operand) _ _ operand.rebuild_simulates) fun _ =>
    of_bind _ (alike (.subquery query) _ _ (alike (.query query) _ _ query.rebuild_simulates))
      fun _ => of_pure _ _
  | .like operand pattern escape _ _ =>
    of_bind _ (alike (.expr operand) _ _ operand.rebuild_simulates) fun _ =>
    of_bind _ (alike (.expr pattern) _ _ pattern.rebuild_simulates) fun _ =>
    of_bind _ (Expr.rebuildOption_simulates escape) fun _ => of_pure _ _
  | .exists query =>
    of_bind _ (alike (.subquery query) _ _ (alike (.query query) _ _ query.rebuild_simulates))
      fun _ => of_pure _ _
  | .subquery query =>
    of_bind _ (alike (.subquery query) _ _ (alike (.query query) _ _ query.rebuild_simulates))
      fun _ => of_pure _ _
  | .case subject branches otherwise =>
    of_bind _ (Expr.rebuildOption_simulates subject) fun _ =>
    of_bind _ (Branch.rebuildList_simulates branches) fun _ =>
    of_bind _ (Expr.rebuildOption_simulates otherwise) fun _ => of_pure _ _
  | .cast operand _ =>
    of_bind _ (alike (.expr operand) _ _ operand.rebuild_simulates) fun _ => of_pure _ _
  | .paren inner =>
    of_bind _ (alike (.expr inner) _ _ inner.rebuild_simulates) fun _ => of_pure _ _

/-- The passes over a list of expressions are related. -/
theorem Expr.rebuildList_simulates :
    ∀ exprs : List Expr,
      simulation.relates (Expr.rebuildList first exprs) (Expr.rebuildList second exprs)
  | [] => of_pure _ _
  | expr :: rest =>
    of_bind _ (alike (.expr expr) _ _ expr.rebuild_simulates) fun _ =>
    of_bind _ (Expr.rebuildList_simulates rest) fun _ => of_pure _ _

/-- The passes over an expression that may be missing are related. -/
theorem Expr.rebuildOption_simulates :
    ∀ expr? : Option Expr,
      simulation.relates (Expr.rebuildOption first expr?) (Expr.rebuildOption second expr?)
  | none => of_pure _ _
  | some expr => of_bind _ (alike (.expr expr) _ _ expr.rebuild_simulates) fun _ => of_pure _ _

/-- The rebuildings of a branch are related. -/
theorem Branch.rebuild_simulates :
    ∀ branch : Branch, simulation.relates (branch.rebuild first) (branch.rebuild second)
  | ⟨condition, result⟩ =>
    of_bind _ (alike (.expr condition) _ _ condition.rebuild_simulates) fun _ =>
    of_bind _ (alike (.expr result) _ _ result.rebuild_simulates) fun _ => of_pure _ _

/-- The rebuildings of branches are related. -/
theorem Branch.rebuildList_simulates :
    ∀ branches : List Branch,
      simulation.relates (Branch.rebuildList first branches) (Branch.rebuildList second branches)
  | [] => of_pure _ _
  | branch :: rest =>
    of_bind _ branch.rebuild_simulates fun _ =>
    of_bind _ (Branch.rebuildList_simulates rest) fun _ => of_pure _ _

/-- The rebuildings of a sort key are related. -/
theorem SortKey.rebuild_simulates :
    ∀ key : SortKey, simulation.relates (key.rebuild first) (key.rebuild second)
  | ⟨expr, _⟩ => of_bind _ (alike (.expr expr) _ _ expr.rebuild_simulates) fun _ => of_pure _ _

/-- The rebuildings of sort keys are related. -/
theorem SortKey.rebuildList_simulates :
    ∀ keys : List SortKey,
      simulation.relates (SortKey.rebuildList first keys) (SortKey.rebuildList second keys)
  | [] => of_pure _ _
  | key :: rest =>
    of_bind _ key.rebuild_simulates fun _ =>
    of_bind _ (SortKey.rebuildList_simulates rest) fun _ => of_pure _ _

/-- The rebuildings of a select item are related. -/
theorem SelectItem.rebuild_simulates :
    ∀ item : SelectItem, simulation.relates (item.rebuild first) (item.rebuild second)
  | ⟨expr, _⟩ => of_bind _ (alike (.expr expr) _ _ expr.rebuild_simulates) fun _ => of_pure _ _

/-- The rebuildings of select items are related. -/
theorem SelectItem.rebuildList_simulates :
    ∀ items : List SelectItem,
      simulation.relates (SelectItem.rebuildList first items) (SelectItem.rebuildList second items)
  | [] => of_pure _ _
  | item :: rest =>
    of_bind _ item.rebuild_simulates fun _ =>
    of_bind _ (SelectItem.rebuildList_simulates rest) fun _ => of_pure _ _

/-- The rebuildings of what matches the rows of a join are related. -/
theorem JoinConstraint.rebuild_simulates :
    ∀ constraint : JoinConstraint,
      simulation.relates (constraint.rebuild first) (constraint.rebuild second)
  | .on condition =>
    of_bind _ (alike (.expr condition) _ _ condition.rebuild_simulates) fun _ => of_pure _ _
  | .using _ => of_pure _ _
  | .none => of_pure _ _

/-- The rebuildings of a table are related. -/
theorem TableRef.rebuild_simulates :
    ∀ table : TableRef, simulation.relates (table.rebuild first) (table.rebuild second)
  | .table _ _ => of_pure _ _
  | .subquery query _ =>
    of_bind _ (alike (.subquery query) _ _ (alike (.query query) _ _ query.rebuild_simulates))
      fun _ => of_pure _ _
  | .join left kind natural right constraint =>
    alike (.join left kind natural right constraint) _ _ <|
      of_bind _ (alike (.table left) _ _ left.rebuild_simulates) fun _ =>
      of_bind _ (alike (.table right) _ _ right.rebuild_simulates) fun _ =>
      of_bind _ constraint.rebuild_simulates fun _ => of_pure _ _
  | .nested inner =>
    of_bind _ (alike (.table inner) _ _ inner.rebuild_simulates) fun _ => of_pure _ _

/-- The passes over tables are related. -/
theorem TableRef.rebuildList_simulates :
    ∀ tables : List TableRef,
      simulation.relates (TableRef.rebuildList first tables) (TableRef.rebuildList second tables)
  | [] => of_pure _ _
  | table :: rest =>
    of_bind _ (alike (.table table) _ _ table.rebuild_simulates) fun _ =>
    of_bind _ (TableRef.rebuildList_simulates rest) fun _ => of_pure _ _

/-- The rebuildings of a specification are related. -/
theorem QuerySpec.rebuild_simulates :
    ∀ spec : QuerySpec, simulation.relates (spec.rebuild first) (spec.rebuild second)
  | ⟨_, _, items, tables, condition, groups, having, keys, _⟩ =>
    of_bind _ (SelectItem.rebuildList_simulates items) fun _ =>
    of_bind _ (TableRef.rebuildList_simulates tables) fun _ =>
    of_bind _ (Expr.rebuildOption_simulates condition) fun _ =>
    of_bind _ (Expr.rebuildList_simulates groups) fun _ =>
    of_bind _ (Expr.rebuildOption_simulates having) fun _ =>
    of_bind _ (SortKey.rebuildList_simulates keys) fun _ => of_pure _ _

/-- The rebuildings of a query body are related. -/
theorem QueryBody.rebuild_simulates :
    ∀ body : QueryBody, simulation.relates (body.rebuild first) (body.rebuild second)
  | .spec spec =>
    of_bind _ (alike (.querySpec spec) _ _ spec.rebuild_simulates) fun _ => of_pure _ _
  | .setOperation _ _ left right =>
    of_bind _ (alike (.queryBody left) _ _ left.rebuild_simulates) fun _ =>
    of_bind _ (alike (.queryBody right) _ _ right.rebuild_simulates) fun _ => of_pure _ _
  | .nested query =>
    of_bind _ (alike (.query query) _ _ query.rebuild_simulates) fun _ => of_pure _ _

/-- The rebuildings of a named query are related. -/
theorem CommonTable.rebuild_simulates :
    ∀ table : CommonTable, simulation.relates (table.rebuild first) (table.rebuild second)
  | ⟨_, _, query⟩ =>
    of_bind _ (alike (.query query) _ _ query.rebuild_simulates) fun _ => of_pure _ _

/-- The rebuildings of named queries are related. -/
theorem CommonTable.rebuildList_simulates :
    ∀ tables : List CommonTable,
      simulation.relates (CommonTable.rebuildList first tables)
        (CommonTable.rebuildList second tables)
  | [] => of_pure _ _
  | table :: rest =>
    of_bind _ table.rebuild_simulates fun _ =>
    of_bind _ (CommonTable.rebuildList_simulates rest) fun _ => of_pure _ _

/-- The rebuildings of a query are related. -/
theorem Query.rebuild_simulates :
    ∀ query : Query, simulation.relates (query.rebuild first) (query.rebuild second)
  | ⟨commonTables, body, keys, _⟩ =>
    of_bind _ (CommonTable.rebuildList_simulates commonTables) fun _ =>
    of_bind _ (alike (.queryBody body) _ _ body.rebuild_simulates) fun _ =>
    of_bind _ (SortKey.rebuildList_simulates keys) fun _ => of_pure _ _

end

/-- The passes over an expression are related. -/
theorem Transformer.applyToExpr_simulates (expr : Expr) :
    simulation.relates (first.applyToExpr expr) (second.applyToExpr expr) :=
  alike (.expr expr) _ _ (expr.rebuild_simulates alike)

/-- The passes over a query are related. -/
theorem Transformer.applyToQuery_simulates (query : Query) :
    simulation.relates (first.applyToQuery query) (second.applyToQuery query) :=
  alike (.query query) _ _ (query.rebuild_simulates alike)

end

end Adql
