import Adql.Traversal.Node

/-!
# Observing trees

An observer is told of every node of a tree, in the order of the text.  With each node it gets the
traversal of the parts of the node as an action, which it may run or leave out: an observer that
does nothing else than run it sees the whole tree.
-/

namespace Adql

/-- What is done at a node, from the traversal of its parts. -/
def Observer (m : Type → Type) : Type :=
  Node → m Unit → m Unit

section

variable {m : Type → Type} [Monad m] (observe : Observer m)

/-- Meets the columns that a join names. -/
def Identifier.walkColumns : List Identifier → m Unit
  | [] => pure ()
  | name :: rest => do
    observe (.column ⟨[], name⟩) (pure ())
    Identifier.walkColumns rest

mutual

/-- Meets the parts of an expression. -/
def Expr.walk : Expr → m Unit
  | .literal value => observe (.literal value) (pure ())
  | .column name => observe (.column name) (pure ())
  | .wildcard _ => pure ()
  | .binary left op right =>
    observe (.binary left op right) do
      observe (.expr left) left.walk
      observe (.expr right) right.walk
  | .unary op operand => observe (.unary op operand) (observe (.expr operand) operand.walk)
  | .call name arguments distinct =>
    observe (.call name arguments distinct) (Expr.walkList arguments)
  | .geometry function arguments =>
    observe (.geometry function arguments) (Expr.walkList arguments)
  | .isNull operand _ => observe (.expr operand) operand.walk
  | .between operand low high _ => do
    observe (.expr operand) operand.walk
    observe (.expr low) low.walk
    observe (.expr high) high.walk
  | .inList operand items _ => do
    observe (.expr operand) operand.walk
    Expr.walkList items
  | .inQuery operand query _ => do
    observe (.expr operand) operand.walk
    observe (.subquery query) (observe (.query query) query.walk)
  | .like operand pattern escape _ _ => do
    observe (.expr operand) operand.walk
    observe (.expr pattern) pattern.walk
    Expr.walkOption escape
  | .exists query => observe (.subquery query) (observe (.query query) query.walk)
  | .subquery query => observe (.subquery query) (observe (.query query) query.walk)
  | .case subject branches otherwise => do
    Expr.walkOption subject
    Branch.walkList branches
    Expr.walkOption otherwise
  | .cast operand _ => observe (.expr operand) operand.walk
  | .paren inner => observe (.expr inner) inner.walk

/-- Meets expressions. -/
def Expr.walkList : List Expr → m Unit
  | [] => pure ()
  | expr :: rest => do
    observe (.expr expr) expr.walk
    Expr.walkList rest

/-- Meets an expression that may be missing. -/
def Expr.walkOption : Option Expr → m Unit
  | none => pure ()
  | some expr => observe (.expr expr) expr.walk

/-- Meets the parts of a branch. -/
def Branch.walk : Branch → m Unit
  | ⟨condition, result⟩ => do
    observe (.expr condition) condition.walk
    observe (.expr result) result.walk

/-- Meets the parts of branches. -/
def Branch.walkList : List Branch → m Unit
  | [] => pure ()
  | branch :: rest => do
    branch.walk
    Branch.walkList rest

/-- Meets the expression of a sort key. -/
def SortKey.walk : SortKey → m Unit
  | ⟨expr, _⟩ => observe (.expr expr) expr.walk

/-- Meets the expressions of sort keys. -/
def SortKey.walkList : List SortKey → m Unit
  | [] => pure ()
  | key :: rest => do
    key.walk
    SortKey.walkList rest

/-- Meets the expression of a select item. -/
def SelectItem.walk : SelectItem → m Unit
  | ⟨expr, _⟩ => observe (.expr expr) expr.walk

/-- Meets select items. -/
def SelectItem.walkList : List SelectItem → m Unit
  | [] => pure ()
  | item :: rest => do
    observe (.selectItem item) item.walk
    SelectItem.walkList rest

/-- Meets what matches the rows of a join: its condition, or the columns that it names. -/
def JoinConstraint.walk : JoinConstraint → m Unit
  | .on condition => observe (.expr condition) condition.walk
  | .using columns => Identifier.walkColumns observe columns
  | .none => pure ()

/-- Meets the parts of a table. -/
def TableRef.walk : TableRef → m Unit
  | .table _ _ => pure ()
  | .subquery query _ => observe (.subquery query) (observe (.query query) query.walk)
  | .join left kind natural right constraint =>
    observe (.join left kind natural right constraint) do
      observe (.table left) left.walk
      observe (.table right) right.walk
      constraint.walk
  | .nested inner => observe (.table inner) inner.walk

/-- Meets tables. -/
def TableRef.walkList : List TableRef → m Unit
  | [] => pure ()
  | table :: rest => do
    observe (.table table) table.walk
    TableRef.walkList rest

/-- Meets the parts of a specification. -/
def QuerySpec.walk : QuerySpec → m Unit
  | ⟨_, _, items, tables, condition, groups, having, keys, _⟩ => do
    SelectItem.walkList items
    TableRef.walkList tables
    Expr.walkOption condition
    Expr.walkList groups
    Expr.walkOption having
    SortKey.walkList keys

/-- Meets the parts of a query body. -/
def QueryBody.walk : QueryBody → m Unit
  | .spec spec => observe (.querySpec spec) spec.walk
  | .setOperation _ _ left right => do
    observe (.queryBody left) left.walk
    observe (.queryBody right) right.walk
  | .nested query => observe (.query query) query.walk

/-- Meets the query of a named query. -/
def CommonTable.walk : CommonTable → m Unit
  | ⟨_, _, query⟩ => observe (.query query) query.walk

/-- Meets the queries of named queries. -/
def CommonTable.walkList : List CommonTable → m Unit
  | [] => pure ()
  | table :: rest => do
    table.walk
    CommonTable.walkList rest

/-- Meets the parts of a query. -/
def Query.walk : Query → m Unit
  | ⟨commonTables, body, keys, _⟩ => do
    CommonTable.walkList commonTables
    observe (.queryBody body) body.walk
    SortKey.walkList keys

end

/-- Shows an observer an expression and everything in it. -/
def Observer.seeExpr (expr : Expr) : m Unit :=
  observe (.expr expr) (expr.walk observe)

/-- Shows an observer a query and everything in it. -/
def Observer.seeQuery (query : Query) : m Unit :=
  observe (.query query) (query.walk observe)

end

end Adql
