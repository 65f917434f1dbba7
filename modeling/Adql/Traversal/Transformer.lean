import Adql.Traversal.Node

/-!
# Transforming trees

A transformer puts something in the place of every node of a tree.  With each node it gets, as an
action, the rebuilding of the node from its transformed parts, which it may run or leave out: a
transformer that does nothing else than run it gives the tree back.
-/

namespace Adql

/-- What is put in the place of a node, from the rebuilding of the node. -/
def Transformer (m : Type → Type) : Type :=
  (node : Node) → m node.Result → m node.Result

section

variable {m : Type → Type} [Monad m] (transform : Transformer m)

mutual

/-- Rebuilds an expression from its transformed parts. -/
def Expr.rebuild : Expr → m Expr
  | .literal value => transform (.literal value) (pure (.literal value))
  | .column name => transform (.column name) (pure (.column name))
  | .wildcard qualifier => pure (.wildcard qualifier)
  | .binary left op right =>
    transform (.binary left op right) do
      let left ← transform (.expr left) left.rebuild
      let right ← transform (.expr right) right.rebuild
      pure (.binary left op right)
  | .unary op operand =>
    transform (.unary op operand) do
      pure (.unary op (← transform (.expr operand) operand.rebuild))
  | .call name arguments distinct =>
    transform (.call name arguments distinct) do
      pure (.call name (← Expr.rebuildList arguments) distinct)
  | .geometry function arguments =>
    transform (.geometry function arguments) do
      pure (.geometry function (← Expr.rebuildList arguments))
  | .isNull operand negated => do
    pure (.isNull (← transform (.expr operand) operand.rebuild) negated)
  | .between operand low high negated => do
    let operand ← transform (.expr operand) operand.rebuild
    let low ← transform (.expr low) low.rebuild
    let high ← transform (.expr high) high.rebuild
    pure (.between operand low high negated)
  | .inList operand items negated => do
    let operand ← transform (.expr operand) operand.rebuild
    let items ← Expr.rebuildList items
    pure (.inList operand items negated)
  | .inQuery operand query negated => do
    let operand ← transform (.expr operand) operand.rebuild
    let query ← transform (.subquery query) (transform (.query query) query.rebuild)
    pure (.inQuery operand query negated)
  | .like operand pattern escape negated caseInsensitive => do
    let operand ← transform (.expr operand) operand.rebuild
    let pattern ← transform (.expr pattern) pattern.rebuild
    let escape ← Expr.rebuildOption escape
    pure (.like operand pattern escape negated caseInsensitive)
  | .exists query => do
    pure (.exists (← transform (.subquery query) (transform (.query query) query.rebuild)))
  | .subquery query => do
    pure (.subquery (← transform (.subquery query) (transform (.query query) query.rebuild)))
  | .case subject branches otherwise => do
    let subject ← Expr.rebuildOption subject
    let branches ← Branch.rebuildList branches
    let otherwise ← Expr.rebuildOption otherwise
    pure (.case subject branches otherwise)
  | .cast operand target => do
    pure (.cast (← transform (.expr operand) operand.rebuild) target)
  | .paren inner => do
    pure (.paren (← transform (.expr inner) inner.rebuild))

/-- Transforms expressions. -/
def Expr.rebuildList : List Expr → m (List Expr)
  | [] => pure []
  | expr :: rest => do
    let expr ← transform (.expr expr) expr.rebuild
    let rest ← Expr.rebuildList rest
    pure (expr :: rest)

/-- Transforms an expression that may be missing. -/
def Expr.rebuildOption : Option Expr → m (Option Expr)
  | none => pure none
  | some expr => do
    pure (some (← transform (.expr expr) expr.rebuild))

/-- Rebuilds a branch from its transformed parts. -/
def Branch.rebuild : Branch → m Branch
  | ⟨condition, result⟩ => do
    let condition ← transform (.expr condition) condition.rebuild
    let result ← transform (.expr result) result.rebuild
    pure ⟨condition, result⟩

/-- Rebuilds branches. -/
def Branch.rebuildList : List Branch → m (List Branch)
  | [] => pure []
  | branch :: rest => do
    let branch ← branch.rebuild
    let rest ← Branch.rebuildList rest
    pure (branch :: rest)

/-- Rebuilds a sort key from its transformed expression. -/
def SortKey.rebuild : SortKey → m SortKey
  | ⟨expr, direction⟩ => do
    let expr ← transform (.expr expr) expr.rebuild
    pure ⟨expr, direction⟩

/-- Rebuilds sort keys. -/
def SortKey.rebuildList : List SortKey → m (List SortKey)
  | [] => pure []
  | key :: rest => do
    let key ← key.rebuild
    let rest ← SortKey.rebuildList rest
    pure (key :: rest)

/-- Rebuilds a select item from its transformed expression. -/
def SelectItem.rebuild : SelectItem → m SelectItem
  | ⟨expr, alias?⟩ => do
    let expr ← transform (.expr expr) expr.rebuild
    pure ⟨expr, alias?⟩

/-- Rebuilds select items. -/
def SelectItem.rebuildList : List SelectItem → m (List SelectItem)
  | [] => pure []
  | item :: rest => do
    let item ← item.rebuild
    let rest ← SelectItem.rebuildList rest
    pure (item :: rest)

/-- Rebuilds what matches the rows of a join. -/
def JoinConstraint.rebuild : JoinConstraint → m JoinConstraint
  | .on condition => do
    pure (.on (← transform (.expr condition) condition.rebuild))
  | .using columns => pure (.using columns)
  | .none => pure .none

/-- Rebuilds a table from its transformed parts. -/
def TableRef.rebuild : TableRef → m TableRef
  | .table name alias? => pure (.table name alias?)
  | .subquery query name => do
    let query ← transform (.subquery query) (transform (.query query) query.rebuild)
    pure (.subquery query name)
  | .join left kind natural right constraint =>
    transform (.join left kind natural right constraint) do
      let left ← transform (.table left) left.rebuild
      let right ← transform (.table right) right.rebuild
      let constraint ← constraint.rebuild
      pure (.join left kind natural right constraint)
  | .nested inner => do
    pure (.nested (← transform (.table inner) inner.rebuild))

/-- Transforms tables. -/
def TableRef.rebuildList : List TableRef → m (List TableRef)
  | [] => pure []
  | table :: rest => do
    let table ← transform (.table table) table.rebuild
    let rest ← TableRef.rebuildList rest
    pure (table :: rest)

/-- Rebuilds a specification from its transformed parts. -/
def QuerySpec.rebuild : QuerySpec → m QuerySpec
  | ⟨distinct, top, items, tables, condition, groups, having, keys, offset⟩ => do
    let items ← SelectItem.rebuildList items
    let tables ← TableRef.rebuildList tables
    let condition ← Expr.rebuildOption condition
    let groups ← Expr.rebuildList groups
    let having ← Expr.rebuildOption having
    let keys ← SortKey.rebuildList keys
    pure ⟨distinct, top, items, tables, condition, groups, having, keys, offset⟩

/-- Rebuilds a query body from its transformed parts. -/
def QueryBody.rebuild : QueryBody → m QueryBody
  | .spec spec => do
    pure (.spec (← transform (.querySpec spec) spec.rebuild))
  | .setOperation op all left right => do
    let left ← transform (.queryBody left) left.rebuild
    let right ← transform (.queryBody right) right.rebuild
    pure (.setOperation op all left right)
  | .nested query => do
    pure (.nested (← transform (.query query) query.rebuild))

/-- Rebuilds a named query from its transformed query. -/
def CommonTable.rebuild : CommonTable → m CommonTable
  | ⟨name, columns, query⟩ => do
    let query ← transform (.query query) query.rebuild
    pure ⟨name, columns, query⟩

/-- Rebuilds named queries. -/
def CommonTable.rebuildList : List CommonTable → m (List CommonTable)
  | [] => pure []
  | table :: rest => do
    let table ← table.rebuild
    let rest ← CommonTable.rebuildList rest
    pure (table :: rest)

/-- Rebuilds a query from its transformed parts. -/
def Query.rebuild : Query → m Query
  | ⟨commonTables, body, keys, offset⟩ => do
    let commonTables ← CommonTable.rebuildList commonTables
    let body ← transform (.queryBody body) body.rebuild
    let keys ← SortKey.rebuildList keys
    pure ⟨commonTables, body, keys, offset⟩

end

/-- Transforms an expression and everything in it. -/
def Transformer.applyToExpr (expr : Expr) : m Expr :=
  transform (.expr expr) (expr.rebuild transform)

/-- Transforms a query and everything in it. -/
def Transformer.applyToQuery (query : Query) : m Query :=
  transform (.query query) (query.rebuild transform)

end

end Adql
