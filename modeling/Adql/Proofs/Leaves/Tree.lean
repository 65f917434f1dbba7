import Adql.Token.Value
import Mathlib.Data.List.Forall2

/-!
# The leaves of trees

A source holds names, numbers and strings; all other tokens only say how these belong together.
`Query.leaves` reads them off a tree, from the left to the right of the text that the tree stands for.
`Token.StandsFor` says what the tree keeps of a token: the name or the value, and of the name of a
geometry function or type only what it is but for the case of its letters.

The name of an aggregate function is a reserved word, so it is no leaf.
-/

namespace Adql

/-- What a tree keeps of a name, a number or a string. -/
inductive Leaf
  | name (name : Identifier)
  /-- The name of a geometry function or type, in upper case. -/
  | geometry (spelling : String)
  | integer (value : Int)
  | real (value : Double)
  | string (value : String)
  deriving DecidableEq

/-! ### Tokens -/

/-- Are the tokens of the kind names, numbers or strings? -/
def TokenKind.isLeaf : TokenKind → Bool
  | .identifier | .delimitedIdentifier | .integer | .real | .string => true
  | _ => false

namespace Token

/-- Is the token a name, a number or a string? -/
def isLeaf (token : Token) : Bool :=
  token.kind.isLeaf

/-- The token is decoded to the leaf. -/
inductive StandsFor (token : Token) : Leaf → Prop
  | name {name : Identifier} : token.identifier? = some name → StandsFor token (.name name)
  | geometry : token.kind = .identifier → StandsFor token (.geometry token.lexeme.toUpper)
  | integer {value : Int64} : token.kind = .integer → token.integer? = some value →
      StandsFor token (.integer value.toInt)
  | real {value : Double} : token.kind = .real → token.real? = some value →
      StandsFor token (.real value)
  | string : token.kind = .string → StandsFor token (.string (Text.unquoted '\'' token.lexeme))

end Token

/-! ### Parts of trees -/

/-- The leaf of a literal, if it is a number or a string. -/
def Literal.leaves : Literal → List Leaf
  | .integer value => [.integer value.toInt]
  | .real value => [.real value]
  | .string value => [.string value]
  | .boolean _ | .null => []

/-- The leaves of a qualified name. -/
def QualifiedName.leaves (name : QualifiedName) : List Leaf :=
  name.qualifier.map .name ++ [.name name.name]

/-- The leaf of a name that may be missing. -/
def Identifier.leavesOption (name? : Option Identifier) : List Leaf :=
  name?.toList.map .name

/-- The leaf of a number that may be missing. -/
def Leaf.count (count? : Option Nat) : List Leaf :=
  count?.toList.map fun count => .integer count

/-- Is the name a reserved word?  Only aggregate functions have such names. -/
def Identifier.isReserved (name : Identifier) : Bool :=
  !name.quoted && (Keyword.ofWord? name.value).isSome

/-- The leaf of the name of a function, if it is none of the aggregate functions. -/
def Identifier.calledLeaves (name : Identifier) : List Leaf :=
  if name.isReserved then [] else [.name name]

/-- The leaves of a type. -/
def DataType.leaves : DataType → List Leaf
  | .char length | .varchar length => Leaf.count (length.map UInt32.toNat)
  | .point => [.geometry Geometry.point.spelling]
  | .circle => [.geometry Geometry.circle.spelling]
  | .polygon => [.geometry Geometry.polygon.spelling]
  | .smallint | .integer | .bigint | .real | .double | .timestamp => []

/-! ### Trees -/

mutual

/-- The leaves of an expression. -/
def Expr.leaves : Expr → List Leaf
  | .literal value => value.leaves
  | .column name => name.leaves
  | .wildcard qualifier => qualifier.map .name
  | .binary left _ right => left.leaves ++ right.leaves
  | .unary _ operand => operand.leaves
  | .call name arguments _ => name.calledLeaves ++ Expr.leavesList arguments
  | .geometry function arguments => .geometry function.spelling :: Expr.leavesList arguments
  | .isNull operand _ => operand.leaves
  | .between operand low high _ => operand.leaves ++ (low.leaves ++ high.leaves)
  | .inList operand items _ => operand.leaves ++ Expr.leavesList items
  | .inQuery operand query _ => operand.leaves ++ query.leaves
  | .like operand pattern escape _ _ =>
    operand.leaves ++ (pattern.leaves ++ Expr.leavesOption escape)
  | .exists query => query.leaves
  | .subquery query => query.leaves
  | .case subject branches otherwise =>
    Expr.leavesOption subject ++ (Branch.leavesList branches ++ Expr.leavesOption otherwise)
  | .cast operand target => operand.leaves ++ target.leaves
  | .paren inner => inner.leaves

/-- The leaves of expressions, one behind the other. -/
def Expr.leavesList : List Expr → List Leaf
  | [] => []
  | expr :: rest => expr.leaves ++ Expr.leavesList rest

/-- The leaves of an expression that may be missing. -/
def Expr.leavesOption : Option Expr → List Leaf
  | none => []
  | some expr => expr.leaves

/-- The leaves of a branch of a case distinction. -/
def Branch.leaves : Branch → List Leaf
  | ⟨condition, result⟩ => condition.leaves ++ result.leaves

/-- The leaves of branches, one behind the other. -/
def Branch.leavesList : List Branch → List Leaf
  | [] => []
  | branch :: rest => branch.leaves ++ Branch.leavesList rest

/-- The leaves of a sort key. -/
def SortKey.leaves : SortKey → List Leaf
  | ⟨expr, _⟩ => expr.leaves

/-- The leaves of sort keys, one behind the other. -/
def SortKey.leavesList : List SortKey → List Leaf
  | [] => []
  | key :: rest => key.leaves ++ SortKey.leavesList rest

/-- The leaves of a select item: its name comes last. -/
def SelectItem.leaves : SelectItem → List Leaf
  | ⟨expr, alias?⟩ => expr.leaves ++ Identifier.leavesOption alias?

/-- The leaves of select items, one behind the other. -/
def SelectItem.leavesList : List SelectItem → List Leaf
  | [] => []
  | item :: rest => item.leaves ++ SelectItem.leavesList rest

/-- The leaves of what matches the rows of a join. -/
def JoinConstraint.leaves : JoinConstraint → List Leaf
  | .on condition => condition.leaves
  | .using columns => columns.map .name
  | .none => []

/-- The leaves of a table: its name comes last. -/
def TableRef.leaves : TableRef → List Leaf
  | .table name alias? => name.leaves ++ Identifier.leavesOption alias?
  | .subquery query name => query.leaves ++ [.name name]
  | .join left _ _ right constraint => left.leaves ++ (right.leaves ++ constraint.leaves)
  | .nested inner => inner.leaves

/-- The leaves of tables, one behind the other. -/
def TableRef.leavesList : List TableRef → List Leaf
  | [] => []
  | table :: rest => table.leaves ++ TableRef.leavesList rest

/-- The leaves of a specification, in the order of its clauses. -/
def QuerySpec.leaves : QuerySpec → List Leaf
  | ⟨_, top, items, tables, condition, groups, having, keys, offset⟩ =>
    Leaf.count (top.map UInt64.toNat) ++ (SelectItem.leavesList items ++
      (TableRef.leavesList tables ++ (Expr.leavesOption condition ++ (Expr.leavesList groups ++
        (Expr.leavesOption having ++ (SortKey.leavesList keys ++
          Leaf.count (offset.map UInt64.toNat)))))))

/-- The leaves of a query body. -/
def QueryBody.leaves : QueryBody → List Leaf
  | .spec spec => spec.leaves
  | .setOperation _ _ left right => left.leaves ++ right.leaves
  | .nested query => query.leaves

/-- The leaves of a named query. -/
def CommonTable.leaves : CommonTable → List Leaf
  | ⟨name, columns, query⟩ => .name name :: (columns.map .name ++ query.leaves)

/-- The leaves of named queries, one behind the other. -/
def CommonTable.leavesList : List CommonTable → List Leaf
  | [] => []
  | table :: rest => table.leaves ++ CommonTable.leavesList rest

/-- The leaves of a query, in the order of its clauses. -/
def Query.leaves : Query → List Leaf
  | ⟨commonTables, body, keys, offset⟩ =>
    CommonTable.leavesList commonTables ++ (body.leaves ++ (SortKey.leavesList keys ++
      Leaf.count (offset.map UInt64.toNat)))

end

attribute [simp] Expr.leaves Expr.leavesList Expr.leavesOption Branch.leaves Branch.leavesList
  SortKey.leaves SortKey.leavesList SelectItem.leaves SelectItem.leavesList JoinConstraint.leaves
  TableRef.leaves TableRef.leavesList QuerySpec.leaves QueryBody.leaves CommonTable.leaves
  CommonTable.leavesList Query.leaves

/-! ### Several parts -/

/-- The leaves of expressions are the leaves of each of them. -/
theorem Expr.leavesList_eq (exprs : List Expr) :
    Expr.leavesList exprs = exprs.flatMap Expr.leaves := by
  induction exprs with
  | nil => rfl
  | cons expr rest ih => rw [leavesList, ih, List.flatMap_cons]

/-- The leaves of branches are the leaves of each of them. -/
theorem Branch.leavesList_eq (branches : List Branch) :
    Branch.leavesList branches = branches.flatMap Branch.leaves := by
  induction branches with
  | nil => rfl
  | cons branch rest ih => rw [leavesList, ih, List.flatMap_cons]

/-- The leaves of sort keys are the leaves of each of them. -/
theorem SortKey.leavesList_eq (keys : List SortKey) :
    SortKey.leavesList keys = keys.flatMap SortKey.leaves := by
  induction keys with
  | nil => rfl
  | cons key rest ih => rw [leavesList, ih, List.flatMap_cons]

/-- The leaves of select items are the leaves of each of them. -/
theorem SelectItem.leavesList_eq (items : List SelectItem) :
    SelectItem.leavesList items = items.flatMap SelectItem.leaves := by
  induction items with
  | nil => rfl
  | cons item rest ih => rw [leavesList, ih, List.flatMap_cons]

/-- The leaves of tables are the leaves of each of them. -/
theorem TableRef.leavesList_eq (tables : List TableRef) :
    TableRef.leavesList tables = tables.flatMap TableRef.leaves := by
  induction tables with
  | nil => rfl
  | cons table rest ih => rw [leavesList, ih, List.flatMap_cons]

/-- The leaves of named queries are the leaves of each of them. -/
theorem CommonTable.leavesList_eq (tables : List CommonTable) :
    CommonTable.leavesList tables = tables.flatMap CommonTable.leaves := by
  induction tables with
  | nil => rfl
  | cons table rest ih => rw [leavesList, ih, List.flatMap_cons]

end Adql
