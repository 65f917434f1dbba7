import Adql.Datum
import Adql.Tree

/-!
# Trees as described values

The description of a tree names its nodes and their parts as documents and outlines show them.
-/

namespace Adql

/-! ### Leaves -/

/-- The description of a name. -/
def Identifier.datum (identifier : Identifier) : Datum :=
  .record "Ident" [("value", .string identifier.value), ("quoted", .boolean identifier.quoted)]

/-- The description of an optional value. -/
def Datum.ofOption {α : Type} (describe : α → Datum) : Option α → Datum
  | none => .absent
  | some value => .present (describe value)

/-- The description of a list of names. -/
def Identifier.listDatum (identifiers : List Identifier) : Datum :=
  .list (identifiers.map Identifier.datum)

/-- The description of a qualified name of a type. -/
def QualifiedName.datum (type : String) (name : QualifiedName) : Datum :=
  .record type [("qualifier", Identifier.listDatum name.qualifier), ("name", name.name.datum)]

/-- The description of a literal. -/
def Literal.datum : Literal → Datum
  | .integer value => .choiceOf "Integer" (.integer value.toInt)
  | .real value => .choiceOf "Real" (.real value)
  | .string value => .choiceOf "String" (.string value)
  | .boolean value => .choiceOf "Boolean" (.boolean value)
  | .null => .choice "Null"

/-- The name of a binary operator in descriptions. -/
def BinaryOp.label : BinaryOp → String
  | .or => "Or"
  | .and => "And"
  | .eq => "Eq"
  | .notEq => "NotEq"
  | .lt => "Lt"
  | .ltEq => "LtEq"
  | .gt => "Gt"
  | .gtEq => "GtEq"
  | .concat => "Concat"
  | .bitOr => "BitOr"
  | .bitXor => "BitXor"
  | .bitAnd => "BitAnd"
  | .add => "Add"
  | .sub => "Sub"
  | .mul => "Mul"
  | .div => "Div"
  | .mod => "Mod"

/-- The name of a prefix operator in descriptions. -/
def UnaryOp.label : UnaryOp → String
  | .not => "Not"
  | .neg => "Neg"
  | .plus => "Plus"
  | .bitNot => "BitNot"

/-- The name of a geometry function in descriptions. -/
def Geometry.label (function : Geometry) : String :=
  function.spelling.toLower.capitalize

/-- The description of the length of a type. -/
def DataType.lengthDatum : Option UInt32 → Datum :=
  .ofOption fun length => .integer length.toNat

/-- The description of a data type. -/
def DataType.datum : DataType → Datum
  | .smallint => .choice "Smallint"
  | .integer => .choice "Integer"
  | .bigint => .choice "Bigint"
  | .real => .choice "Real"
  | .double => .choice "Double"
  | .char length => .choiceOf "Char" (lengthDatum length)
  | .varchar length => .choiceOf "Varchar" (lengthDatum length)
  | .timestamp => .choice "Timestamp"
  | .point => .choice "Point"
  | .circle => .choice "Circle"
  | .polygon => .choice "Polygon"

/-- The name of a direction in descriptions. -/
def Direction.label : Direction → String
  | .ascending => "Asc"
  | .descending => "Desc"

/-- The name of a kind of join in descriptions. -/
def JoinKind.label : JoinKind → String
  | .inner => "Inner"
  | .left => "Left"
  | .right => "Right"
  | .full => "Full"
  | .cross => "Cross"

/-- The name of a set operator in descriptions. -/
def SetOperator.label : SetOperator → String
  | .union => "Union"
  | .except => "Except"
  | .intersect => "Intersect"

/-- The description of a number of rows. -/
def Datum.ofCount : Option UInt64 → Datum :=
  .ofOption fun count => .integer count.toNat

/-! ### Trees -/

mutual

/-- The description of an expression. -/
def Expr.datum : Expr → Datum
  | .literal value => .choiceOf "Literal" value.datum
  | .column name => .choiceOf "Column" (name.datum "ColumnRef")
  | .wildcard qualifier =>
    .choiceRecord "Wildcard" [("qualifier", Identifier.listDatum qualifier)]
  | .binary left op right =>
    .choiceRecord "Binary"
      [("left", left.datum), ("op", .choice op.label), ("right", right.datum)]
  | .unary op operand =>
    .choiceRecord "Unary" [("op", .choice op.label), ("operand", operand.datum)]
  | .call name arguments distinct =>
    .choiceOf "Function" (.record "FunctionCall"
      [("name", name.datum), ("args", .list (Expr.datumList arguments)),
       ("distinct", .boolean distinct)])
  | .geometry function arguments =>
    .choiceOf "Geometry" (.record "GeometryCall"
      [("function", .choice function.label), ("args", .list (Expr.datumList arguments))])
  | .isNull operand negated =>
    .choiceRecord "IsNull" [("expr", operand.datum), ("negated", .boolean negated)]
  | .between operand low high negated =>
    .choiceRecord "Between"
      [("expr", operand.datum), ("low", low.datum), ("high", high.datum),
       ("negated", .boolean negated)]
  | .inList operand items negated =>
    .choiceRecord "InList"
      [("expr", operand.datum), ("list", .list (Expr.datumList items)),
       ("negated", .boolean negated)]
  | .inQuery operand query negated =>
    .choiceRecord "InSubquery"
      [("expr", operand.datum), ("query", query.datum), ("negated", .boolean negated)]
  | .like operand pattern escape negated caseInsensitive =>
    .choiceRecord "Like"
      [("expr", operand.datum), ("pattern", pattern.datum), ("escape", Expr.datumOption escape),
       ("negated", .boolean negated), ("case_insensitive", .boolean caseInsensitive)]
  | .exists query => .choiceOf "Exists" query.datum
  | .subquery query => .choiceOf "Subquery" query.datum
  | .case subject branches otherwise =>
    .choiceRecord "Case"
      [("operand", Expr.datumOption subject), ("when_clauses", .list (Branch.datumList branches)),
       ("else_clause", Expr.datumOption otherwise)]
  | .cast operand target =>
    .choiceRecord "Cast" [("expr", operand.datum), ("data_type", target.datum)]
  | .paren inner => .choiceOf "Paren" inner.datum

/-- The descriptions of expressions. -/
def Expr.datumList : List Expr → List Datum
  | [] => []
  | expr :: rest => expr.datum :: Expr.datumList rest

/-- The description of an expression that may be missing. -/
def Expr.datumOption : Option Expr → Datum
  | none => .absent
  | some expr => .present expr.datum

/-- The description of a branch. -/
def Branch.datum : Branch → Datum
  | ⟨condition, result⟩ => .pair condition.datum result.datum

/-- The descriptions of branches. -/
def Branch.datumList : List Branch → List Datum
  | [] => []
  | branch :: rest => branch.datum :: Branch.datumList rest

/-- The description of a sort key. -/
def SortKey.datum : SortKey → Datum
  | ⟨expr, direction⟩ =>
    .record "OrderBy" [("expr", expr.datum), ("direction", .choice direction.label)]

/-- The descriptions of sort keys. -/
def SortKey.datumList : List SortKey → List Datum
  | [] => []
  | key :: rest => key.datum :: SortKey.datumList rest

/-- The description of a select item. -/
def SelectItem.datum : SelectItem → Datum
  | ⟨expr, alias?⟩ =>
    .record "SelectItem" [("expr", expr.datum), ("alias", .ofOption Identifier.datum alias?)]

/-- The descriptions of select items. -/
def SelectItem.datumList : List SelectItem → List Datum
  | [] => []
  | item :: rest => item.datum :: SelectItem.datumList rest

/-- The description of what matches the rows of a join. -/
def JoinConstraint.datum : JoinConstraint → Datum
  | .on condition => .choiceOf "On" condition.datum
  | .using columns => .choiceOf "Using" (Identifier.listDatum columns)
  | .none => .choice "None"

/-- The description of a table. -/
def TableRef.datum : TableRef → Datum
  | .table name alias? =>
    .choiceRecord "Table"
      [("name", name.datum "TableName"), ("alias", .ofOption Identifier.datum alias?)]
  | .subquery query name =>
    .choiceRecord "Subquery" [("query", query.datum), ("alias", name.datum)]
  | .join left kind natural right constraint =>
    .choiceOf "Join" (.record "Join"
      [("left", left.datum), ("join_type", .choice kind.label), ("natural", .boolean natural),
       ("right", right.datum), ("constraint", constraint.datum)])
  | .nested inner => .choiceOf "Nested" inner.datum

/-- The descriptions of tables. -/
def TableRef.datumList : List TableRef → List Datum
  | [] => []
  | table :: rest => table.datum :: TableRef.datumList rest

/-- The description of a specification. -/
def QuerySpec.datum : QuerySpec → Datum
  | ⟨distinct, top, items, tables, condition, groups, having, keys, offset⟩ =>
    .record "QuerySpec"
      [("distinct", .boolean distinct), ("top", .ofCount top),
       ("select_list", .list (SelectItem.datumList items)),
       ("from_clause", .list (TableRef.datumList tables)),
       ("where_clause", Expr.datumOption condition),
       ("group_by", .list (Expr.datumList groups)),
       ("having", Expr.datumOption having),
       ("order_by", .list (SortKey.datumList keys)),
       ("offset", .ofCount offset)]

/-- The description of a query body. -/
def QueryBody.datum : QueryBody → Datum
  | .spec spec => .choiceOf "Spec" spec.datum
  | .setOperation op all left right =>
    .choiceRecord "SetOperation"
      [("op", .choice op.label), ("all", .boolean all), ("left", left.datum),
       ("right", right.datum)]
  | .nested query => .choiceOf "Nested" query.datum

/-- The description of a named query. -/
def CommonTable.datum : CommonTable → Datum
  | ⟨name, columns, query⟩ =>
    .record "CommonTableExpr"
      [("name", name.datum), ("columns", Identifier.listDatum columns), ("query", query.datum)]

/-- The descriptions of named queries. -/
def CommonTable.datumList : List CommonTable → List Datum
  | [] => []
  | table :: rest => table.datum :: CommonTable.datumList rest

/-- The description of a query. -/
def Query.datum : Query → Datum
  | ⟨commonTables, body, keys, offset⟩ =>
    .record "Query"
      [("with", .list (CommonTable.datumList commonTables)), ("body", body.datum),
       ("order_by", .list (SortKey.datumList keys)), ("offset", .ofCount offset)]

end

end Adql
