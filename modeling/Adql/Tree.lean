import Adql.DataType
import Adql.Double
import Adql.Geometry
import Adql.Operator

/-!
# Syntax trees

The trees of queries and expressions.  Trees keep what the text says, parentheses included, and
nothing of its layout.  Wherever a list, an option or a pair of trees occurs inside a tree, the
companions of a recursive function (`…List`, `…Option`) follow it.
-/

namespace Adql

/-- A name, regular or delimited; a delimited name is kept without its quotes. -/
structure Identifier where
  /-- The name. -/
  value : String
  /-- Was it written in double quotes? -/
  quoted : Bool
  deriving DecidableEq

namespace Identifier

/-- A regular name. -/
def regular (value : String) : Identifier := ⟨value, false⟩

/-- A delimited name. -/
def delimited (value : String) : Identifier := ⟨value, true⟩

/-- Do two names mean the same?  Regular names differ in more than the case of ASCII letters;
against a delimited name every character counts. -/
def matchesName (first second : Identifier) : Bool :=
  if first.quoted || second.quoted then first.value == second.value
  else first.value.toLower == second.value.toLower

end Identifier

/-- A name with the names that qualify it, outermost first. -/
structure QualifiedName where
  /-- The qualifying names. -/
  qualifier : List Identifier
  /-- The name itself. -/
  name : Identifier
  deriving DecidableEq

/-- A literal value. -/
inductive Literal
  | integer (value : Int64)
  | real (value : Double)
  | string (value : String)
  | boolean (value : Bool)
  | null
  deriving DecidableEq

/-- The direction of a sort key. -/
inductive Direction
  | ascending | descending
  deriving DecidableEq

/-- The kind of a join. -/
inductive JoinKind
  | inner | left | right | full | cross
  deriving DecidableEq

/-- An operator between two query bodies. -/
inductive SetOperator
  | union | except | intersect
  deriving DecidableEq

mutual

/-- An expression. -/
inductive Expr
  | literal (value : Literal)
  | column (name : QualifiedName)
  | wildcard (qualifier : List Identifier)
  | binary (left : Expr) (op : BinaryOp) (right : Expr)
  | unary (op : UnaryOp) (operand : Expr)
  | call (name : Identifier) (arguments : List Expr) (distinct : Bool)
  | geometry (function : Geometry) (arguments : List Expr)
  | isNull (operand : Expr) (negated : Bool)
  | between (operand low high : Expr) (negated : Bool)
  | inList (operand : Expr) (items : List Expr) (negated : Bool)
  | inQuery (operand : Expr) (query : Query) (negated : Bool)
  | like (operand pattern : Expr) (escape : Option Expr) (negated caseInsensitive : Bool)
  | exists (query : Query)
  | subquery (query : Query)
  | case (subject : Option Expr) (branches : List Branch) (otherwise : Option Expr)
  | cast (operand : Expr) (target : DataType)
  | paren (inner : Expr)

/-- A branch of a case distinction. -/
structure Branch where
  /-- The condition, or the value that the subject is compared with. -/
  condition : Expr
  /-- The value of the distinction if the branch is taken. -/
  result : Expr

/-- A sort key; an integer literal stands for the number of a column. -/
structure SortKey where
  /-- The value to sort by. -/
  expr : Expr
  /-- The direction. -/
  direction : Direction

/-- An item of a select list. -/
structure SelectItem where
  /-- The value, or a wildcard. -/
  expr : Expr
  /-- The name given to it. -/
  alias? : Option Identifier

/-- How the rows of a join are matched. -/
inductive JoinConstraint
  | on (condition : Expr)
  | using (columns : List Identifier)
  | none

/-- An item of a `FROM` clause. -/
inductive TableRef
  | table (name : QualifiedName) (alias? : Option Identifier)
  | subquery (query : Query) (name : Identifier)
  | join (left : TableRef) (kind : JoinKind) (natural : Bool) (right : TableRef)
      (constraint : JoinConstraint)
  | nested (inner : TableRef)

/-- A query specification: one `SELECT … FROM …`. -/
structure QuerySpec where
  /-- Are repeated rows left out? -/
  distinct : Bool
  /-- The number of rows to keep. -/
  top : Option UInt64
  /-- The select list. -/
  items : List SelectItem
  /-- The items of the `FROM` clause. -/
  tables : List TableRef
  /-- The condition on rows. -/
  condition : Option Expr
  /-- The grouping expressions. -/
  groups : List Expr
  /-- The condition on groups. -/
  having : Option Expr
  /-- The sort keys; only a specification that is a whole query body has them. -/
  keys : List SortKey
  /-- The number of rows to skip; only a specification that is a whole query body has it. -/
  offset : Option UInt64

/-- The body of a query: specifications and parenthesized queries, joined by set operators. -/
inductive QueryBody
  | spec (spec : QuerySpec)
  | setOperation (op : SetOperator) (all : Bool) (left right : QueryBody)
  | nested (query : Query)

/-- A named query in a `WITH` clause. -/
structure CommonTable where
  /-- The name of the query. -/
  name : Identifier
  /-- The names of its columns, if they are given. -/
  columns : List Identifier
  /-- The query. -/
  query : Query

/-- A query. -/
structure Query where
  /-- The queries of the `WITH` clause. -/
  commonTables : List CommonTable
  /-- The body. -/
  body : QueryBody
  /-- The sort keys of a body that is no single specification. -/
  keys : List SortKey
  /-- The number of rows to skip of a body that is no single specification. -/
  offset : Option UInt64

end

/-! ### Spellings -/

/-- The word for a direction. -/
def Direction.spelling : Direction → String
  | .ascending => "ASC"
  | .descending => "DESC"

/-- The words for a join. -/
def JoinKind.spelling : JoinKind → String
  | .inner => "JOIN"
  | .left => "LEFT OUTER JOIN"
  | .right => "RIGHT OUTER JOIN"
  | .full => "FULL OUTER JOIN"
  | .cross => "CROSS JOIN"

/-- The word for a set operator. -/
def SetOperator.spelling : SetOperator → String
  | .union => "UNION"
  | .except => "EXCEPT"
  | .intersect => "INTERSECT"

/-- How tightly a set operator binds. -/
def SetOperator.level : SetOperator → Nat
  | .union | .except => 1
  | .intersect => 2

/-! ### Building trees -/

namespace Expr

/-- An unqualified column with a regular name. -/
def simpleColumn (name : String) : Expr :=
  .column ⟨[], .regular name⟩

/-- A column with a regular name, qualified by the regular name of a table. -/
def tableColumn (table name : String) : Expr :=
  .column ⟨[.regular table], .regular name⟩

/-- An integer literal. -/
def integer (value : Int64) : Expr :=
  .literal (.integer value)

/-- A real literal. -/
def real (value : Double) : Expr :=
  .literal (.real value)

/-- A string literal. -/
def string (value : String) : Expr :=
  .literal (.string value)

/-- Is a prefix operator outermost? -/
def isUnary : Expr → Bool
  | .unary .. => true
  | _ => false

end Expr

/-- A select item without a name. -/
def SelectItem.unnamed (expr : Expr) : SelectItem :=
  ⟨expr, none⟩

/-- A table with a regular name and no alias. -/
def TableRef.simpleTable (name : String) : TableRef :=
  .table ⟨[], .regular name⟩ none

/-- The table with an alias; joins and parenthesized tables have none. -/
def TableRef.named (table : TableRef) (name : String) : TableRef :=
  match table with
  | .table table _ => .table table (some (.regular name))
  | .subquery query _ => .subquery query (.regular name)
  | other => other

/-- A specification of nothing. -/
def QuerySpec.empty : QuerySpec :=
  ⟨false, none, [], [], none, [], none, [], none⟩

/-- The query that consists of one specification. -/
def Query.ofSpec (spec : QuerySpec) : Query :=
  ⟨[], .spec spec, [], none⟩

/-- The specification of a query whose body is a single one. -/
def Query.spec? (query : Query) : Option QuerySpec :=
  match query.body with
  | .spec spec => some spec
  | _ => none

end Adql
