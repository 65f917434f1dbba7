import Adql.Proofs.Expressions.Calls

/-!
# Well-formed trees

The types of trees allow more than a parser yields: a join on the right of a join, an empty list
behind `IN`, a wildcard inside an expression, an operand that binds looser than its place allows.  A
tree is well formed if none of this occurs in it.

Holes come from recovery alone, and recovery happens in the outermost query only.  So a query is
well formed as a whole, or with holes; the queries inside another one are always whole.

One operand may stand where it binds too loosely: a predicate that does not end with an operand, on
the left of an operator (`StandsLeft`).  `a IS NULL + 1` is read as a sum.
-/

namespace Adql

/-! ### Places of operands -/

namespace Expr

variable (table : PrecedenceTable)

/-- The expression may stand where only what binds at a level or tighter may: if a binary operator
or a predicate is outermost, it binds so tightly.  Prefix operators may stand everywhere. -/
def BindsAt (level : Nat) : Expr → Prop
  | .binary _ op _ => level ≤ table.binaryLevel op
  | .isNull .. | .between .. | .inList .. | .inQuery .. | .like .. => level ≤ table.predicateLevel
  | _ => True

/-- It can be decided where an expression may stand. -/
instance decidableBindsAt (level : Nat) : (expr : Expr) → Decidable (expr.BindsAt table level)
  | .binary _ op _ => inferInstanceAs (Decidable (level ≤ table.binaryLevel op))
  | .isNull .. | .between .. | .inList .. | .inQuery .. | .like .. =>
    inferInstanceAs (Decidable (level ≤ table.predicateLevel))
  | .literal _ | .column _ | .wildcard _ | .unary .. | .call .. | .geometry .. | .exists _
  | .subquery _ | .case .. | .cast .. | .paren _ => isTrue trivial

/-- Is a predicate outermost that does not end with an operand? -/
def isClosedPredicate : Expr → Bool
  | .isNull .. | .inList .. | .inQuery .. => true
  | _ => false

/-- The expression may stand on the left of a binary operator on a level. -/
def StandsLeft (level : Nat) (expr : Expr) : Prop :=
  expr.BindsAt table level ∨ expr.isClosedPredicate = true

end Expr

/-! ### Pieces of trees -/

/-- Is the literal a finite number, or no number at all? -/
def Literal.isFinite : Literal → Bool
  | .real value => value.isFinite
  | _ => true

/-- The body is a single specification. -/
def QueryBody.isSpec : QueryBody → Bool
  | .spec _ => true
  | _ => false

/-! ### Trees -/

mutual

/-- The expression is well formed under a precedence table. -/
inductive Expr.WellFormed (table : PrecedenceTable) : Expr → Prop
  | literal {value : Literal} : value.isNegative = false → value.isFinite = true →
      Expr.WellFormed table (.literal value)
  | column {name : QualifiedName} : Expr.WellFormed table (.column name)
  | binary {left right : Expr} {op : BinaryOp} :
      Expr.WellFormed table left → left.StandsLeft table (table.binaryLevel op) →
      Expr.WellFormed table right → right.BindsAt table (table.rightLevel op) →
      Expr.WellFormed table (.binary left op right)
  | unary {op : UnaryOp} {operand : Expr} :
      Expr.WellFormed table operand → operand.BindsAt table (table.prefixLevel op) →
      Expr.WellFormed table (.unary op operand)
  /-- Only `COUNT(*)` has a wildcard for its argument. -/
  | countAll : Expr.WellFormed table (.call (.regular "COUNT") [.wildcard []] false)
  | call {name : Identifier} {arguments : List Expr} {distinct : Bool} :
      (∀ argument ∈ arguments, Expr.WellFormed table argument) →
      Expr.WellFormed table (.call name arguments distinct)
  | geometry {function : Geometry} {arguments : List Expr} :
      (∀ argument ∈ arguments, Expr.WellFormed table argument) →
      function.Admits arguments.length → Expr.WellFormed table (.geometry function arguments)
  | isNull {operand : Expr} {negated : Bool} :
      Expr.WellFormed table operand → operand.BindsAt table table.predicateLevel →
      Expr.WellFormed table (.isNull operand negated)
  | between {operand low high : Expr} {negated : Bool} :
      Expr.WellFormed table operand → operand.BindsAt table table.predicateLevel →
      Expr.WellFormed table low → low.BindsAt table table.predicate.rightOperandLevel →
      Expr.WellFormed table high → high.BindsAt table table.predicate.rightOperandLevel →
      Expr.WellFormed table (.between operand low high negated)
  | inList {operand : Expr} {items : List Expr} {negated : Bool} :
      Expr.WellFormed table operand → operand.BindsAt table table.predicateLevel →
      items ≠ [] → (∀ item ∈ items, Expr.WellFormed table item) →
      Expr.WellFormed table (.inList operand items negated)
  | inQuery {operand : Expr} {query : Query} {negated : Bool} :
      Expr.WellFormed table operand → operand.BindsAt table table.predicateLevel →
      Query.WellFormed table true query → Expr.WellFormed table (.inQuery operand query negated)
  | like {operand pattern : Expr} {escape : Option Expr} {negated caseInsensitive : Bool} :
      Expr.WellFormed table operand → operand.BindsAt table table.predicateLevel →
      Expr.WellFormed table pattern → pattern.BindsAt table table.predicate.rightOperandLevel →
      (∀ text ∈ escape, Expr.WellFormed table text) →
      (∀ text ∈ escape, text.BindsAt table table.predicate.rightOperandLevel) →
      Expr.WellFormed table (.like operand pattern escape negated caseInsensitive)
  | exists {query : Query} :
      Query.WellFormed table true query → Expr.WellFormed table (.exists query)
  | subquery {query : Query} :
      Query.WellFormed table true query → Expr.WellFormed table (.subquery query)
  | case {subject otherwise : Option Expr} {branches : List Branch} :
      (∀ value ∈ subject, Expr.WellFormed table value) → branches ≠ [] →
      (∀ branch ∈ branches, Expr.WellFormed table branch.condition) →
      (∀ branch ∈ branches, Expr.WellFormed table branch.result) →
      (∀ value ∈ otherwise, Expr.WellFormed table value) →
      Expr.WellFormed table (.case subject branches otherwise)
  | cast {operand : Expr} {target : DataType} :
      Expr.WellFormed table operand → Expr.WellFormed table (.cast operand target)
  | paren {inner : Expr} : Expr.WellFormed table inner → Expr.WellFormed table (.paren inner)

/-- The select item is well formed.  A lone star is not among the items: it is a list of its own. -/
inductive SelectItem.WellFormed (table : PrecedenceTable) : SelectItem → Prop
  | wildcard {qualifier : List Identifier} :
      qualifier ≠ [] → SelectItem.WellFormed table (.unnamed (.wildcard qualifier))
  | value {expr : Expr} {alias? : Option Identifier} :
      Expr.WellFormed table expr → SelectItem.WellFormed table ⟨expr, alias?⟩

/-- What matches the rows of a join is well formed. -/
inductive JoinConstraint.WellFormed (table : PrecedenceTable) : JoinConstraint → Prop
  | on {condition : Expr} :
      Expr.WellFormed table condition → JoinConstraint.WellFormed table (.on condition)
  | using {columns : List Identifier} :
      columns ≠ [] → JoinConstraint.WellFormed table (.using columns)
  | none : JoinConstraint.WellFormed table .none

/-- The item of a `FROM` clause is well formed. -/
inductive TableRef.WellFormed (table : PrecedenceTable) : TableRef → Prop
  | table {name : QualifiedName} {alias? : Option Identifier} :
      TableRef.WellFormed table (.table name alias?)
  | subquery {query : Query} {name : Identifier} :
      Query.WellFormed table true query → TableRef.WellFormed table (.subquery query name)
  | join {left right : TableRef} {kind : JoinKind} {natural : Bool} {constraint : JoinConstraint} :
      TableRef.WellFormed table left → TableRef.WellFormed table right → right.isJoin = false →
      (natural = true → kind ≠ .cross) →
      (constraint = .none ↔ natural = true ∨ kind = .cross) →
      JoinConstraint.WellFormed table constraint →
      TableRef.WellFormed table (.join left kind natural right constraint)
  | nested {inner : TableRef} :
      TableRef.WellFormed table inner → TableRef.WellFormed table (.nested inner)

/-- The specification is well formed.  If it is whole, it has select items and tables. -/
inductive QuerySpec.WellFormed (table : PrecedenceTable) : Bool → QuerySpec → Prop
  | mk {whole : Bool} {spec : QuerySpec} :
      (spec.items ≠ [.unnamed (.wildcard [])] →
        ∀ item ∈ spec.items, SelectItem.WellFormed table item) →
      (∀ item ∈ spec.tables, TableRef.WellFormed table item) →
      (whole = true → spec.items ≠ [] ∧ spec.tables ≠ []) →
      (∀ condition ∈ spec.condition, Expr.WellFormed table condition) →
      (∀ group ∈ spec.groups, Expr.WellFormed table group) →
      (∀ condition ∈ spec.having, Expr.WellFormed table condition) →
      (∀ key ∈ spec.keys, Expr.WellFormed table key.expr) →
      QuerySpec.WellFormed table whole spec

/-- The body of a query is well formed where it stands below a set operator.  Specifications have
neither sort keys nor an offset there, and operands of set operators bind as tightly as they have
to. -/
inductive QueryBody.WellFormed (table : PrecedenceTable) : Bool → QueryBody → Prop
  | spec {whole : Bool} {spec : QuerySpec} :
      QuerySpec.WellFormed table whole spec → spec.keys = [] → spec.offset = none →
      QueryBody.WellFormed table whole (.spec spec)
  | setOperation {whole all : Bool} {op : SetOperator} {left right : QueryBody} :
      QueryBody.WellFormed table whole left → left.looserThan op.level = false →
      QueryBody.WellFormed table whole right → right.looserThan (op.level + 1) = false →
      QueryBody.WellFormed table whole (.setOperation op all left right)
  | nested {whole : Bool} {query : Query} :
      Query.WellFormed table true query → QueryBody.WellFormed table whole (.nested query)

/-- The query is well formed.  If its body is a single specification, the sort keys and the offset
are there. -/
inductive Query.WellFormed (table : PrecedenceTable) : Bool → Query → Prop
  | spec {whole : Bool} {commonTables : List CommonTable} {spec : QuerySpec} :
      (∀ named ∈ commonTables, Query.WellFormed table true named.query) →
      QuerySpec.WellFormed table whole spec →
      Query.WellFormed table whole ⟨commonTables, .spec spec, [], none⟩
  | compound {whole : Bool} {commonTables : List CommonTable} {body : QueryBody}
      {keys : List SortKey} {offset : Option UInt64} :
      (∀ named ∈ commonTables, Query.WellFormed table true named.query) →
      QueryBody.WellFormed table whole body → body.isSpec = false →
      (∀ key ∈ keys, Expr.WellFormed table key.expr) →
      Query.WellFormed table whole ⟨commonTables, body, keys, offset⟩

end

end Adql
