import Adql.Text.Blank
import Adql.Tree.Printer

/-!
# Nodes

A node is a place of a tree at which a traversal can be interrupted.  An expression is met twice:
first as an expression, and then as the kind of expression that it is, if that kind has a node of
its own.
-/

namespace Adql

/-- A node of a tree. -/
inductive Node
  | query (query : Query)
  | queryBody (body : QueryBody)
  | querySpec (spec : QuerySpec)
  /-- A query inside an expression or a `FROM` clause; it is met as a query, too. -/
  | subquery (query : Query)
  | selectItem (item : SelectItem)
  | table (table : TableRef)
  | join (left : TableRef) (kind : JoinKind) (natural : Bool) (right : TableRef)
      (constraint : JoinConstraint)
  | expr (expr : Expr)
  | literal (value : Literal)
  | column (name : QualifiedName)
  | binary (left : Expr) (op : BinaryOp) (right : Expr)
  | unary (op : UnaryOp) (operand : Expr)
  | call (name : Identifier) (arguments : List Expr) (distinct : Bool)
  | geometry (function : Geometry) (arguments : List Expr)

namespace Node

/-- What can stand in the place of a node. -/
@[reducible] def Result : Node → Type
  | .query _ | .subquery _ => Query
  | .queryBody _ => QueryBody
  | .querySpec _ => QuerySpec
  | .selectItem _ => SelectItem
  | .table _ | .join .. => TableRef
  | .expr _ | .literal _ | .column _ | .binary .. | .unary .. | .call .. | .geometry .. => Expr

/-- The name of the kind of node. -/
def label : Node → String
  | .query _ => "query"
  | .queryBody _ => "query_body"
  | .querySpec _ => "query_spec"
  | .subquery _ => "subquery"
  | .selectItem _ => "select_item"
  | .table _ => "table_ref"
  | .join .. => "join"
  | .expr _ => "expr"
  | .literal _ => "literal"
  | .column _ => "column"
  | .binary .. => "binary"
  | .unary .. => "unary"
  | .call .. => "function"
  | .geometry .. => "geometry"

/-- What tells a node from others of its kind. -/
def detail : Node → String
  | .queryBody (.spec _) => "Spec"
  | .queryBody (.setOperation ..) => "SetOperation"
  | .queryBody (.nested _) => "Nested"
  | .table (.table ..) => "Table"
  | .table (.subquery ..) => "Subquery"
  | .table (.join ..) => "Join"
  | .table (.nested _) => "Nested"
  | .join _ kind _ _ _ => kind.spelling
  | .literal value => value.text
  | .column name => name.text
  | .binary _ op _ => op.spelling
  | .unary op _ => op.spelling
  | .call name _ _ => name.text
  | .geometry function _ => function.spelling
  | .query _ | .querySpec _ | .subquery _ | .selectItem _ | .expr _ => ""

/-- The line of a log for a node at a depth. -/
def logLine (depth : Nat) (node : Node) : String :=
  Text.trimBlanks (depth.repr ++ " " ++ node.label ++ " " ++ node.detail)

end Node

end Adql
