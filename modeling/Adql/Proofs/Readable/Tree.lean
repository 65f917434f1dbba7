import Adql.Proofs.Expressions.Calls

/-!
# Readable trees

What a parser yields has a shape of its own: lists that are not empty, names that can be written, and
operands that leave no run of operators open for what stands behind them.  A tree is readable if it
has this shape (`Query.Readable`).  It need not come from a parser.  A literal may be negative if it is
a sign in front of a literal, so it need not be one that stands in a text.
-/

namespace Adql

/-! ### Pieces of trees -/

/-- The literal can be written and read: as one word, or as a minus sign and one word for another
literal. -/
inductive Literal.Readable : Literal → Prop
  | unsigned {value : Literal} : value.word.Spelled → value.word.token.literal? = some value →
      Literal.Readable value
  | signed {value magnitude : Literal} : value.words = [TokenKind.minus.word, magnitude.word] →
      magnitude.word.Spelled → magnitude.word.token.literal? = some magnitude →
      Literal.Readable value

/-- Where the expression stands bare, no run of operators that it leaves open goes on with an operator
of the level behind it. -/
def Expr.ClosedAt (expr : Expr) (minLevel level : Nat) : Prop :=
  expr.looserThan minLevel = false → level < expr.openLevel

/-- Does the body start with the word `SELECT`, rather than with a parenthesis? -/
def QueryBody.startsBare : QueryBody → Bool
  | .spec _ => true
  | .setOperation _ _ left _ => left.startsBare
  | .nested _ => false

/-- Does the query start with a word, rather than with a parenthesis? -/
def Query.startsBare (query : Query) : Bool :=
  !query.commonTables.isEmpty || query.body.startsBare

/-- The number of rows, if there is one, can be written and read. -/
def CountReadable (count? : Option UInt64) : Prop :=
  ∀ count ∈ count?, (countWord count.toNat).Spelled ∧
    (countWord count.toNat).token.rowCount? = some count

/-! ### Trees -/

mutual

/-- The expression is readable. -/
inductive Expr.Readable : Expr → Prop
  | literal {value : Literal} : value.Readable → Expr.Readable (.literal value)
  | column {name : QualifiedName} : name.Valid → Expr.Readable (.column name)
  | binary {left right : Expr} {op : BinaryOp} : Expr.Readable left →
      left.ClosedAt (PrecedenceTable.adql.binaryLevel op) (PrecedenceTable.adql.binaryLevel op) →
      Expr.Readable right → Expr.Readable (.binary left op right)
  | unary {op : UnaryOp} {operand : Expr} : Expr.Readable operand →
      Expr.Readable (.unary op operand)
  | call {name : Identifier} {arguments : List Expr} : name.Valid →
      name.word.token.geometryFunction? = none →
      (∀ argument ∈ arguments, Expr.Readable argument) →
      Expr.Readable (.call name arguments false)
  | aggregate {keyword : Keyword} {argument : Expr} {distinct : Bool} :
      keyword.isAggregate = true → Expr.Readable argument →
      Expr.Readable (.call (.regular keyword.spelling) [argument] distinct)
  /-- Only `COUNT(*)` has a wildcard for its argument. -/
  | countAll : Expr.Readable (.call (.regular Keyword.COUNT.spelling) [.wildcard []] false)
  | geometry {function : Geometry} {arguments : List Expr} : function.Admits arguments.length →
      (∀ argument ∈ arguments, Expr.Readable argument) →
      Expr.Readable (.geometry function arguments)
  | isNull {operand : Expr} {negated : Bool} : Expr.Readable operand →
      operand.ClosedAt predicateLevel predicateLevel → Expr.Readable (.isNull operand negated)
  | between {operand low high : Expr} {negated : Bool} : Expr.Readable operand →
      operand.ClosedAt predicateLevel predicateLevel → Expr.Readable low →
      low.ClosedAt (predicateLevel + 1) (PrecedenceTable.adql.binaryLevel .and) →
      Expr.Readable high → Expr.Readable (.between operand low high negated)
  | inList {operand : Expr} {items : List Expr} {negated : Bool} : Expr.Readable operand →
      operand.ClosedAt predicateLevel predicateLevel → items ≠ [] →
      (∀ item ∈ items, Expr.Readable item) → Expr.Readable (.inList operand items negated)
  /-- Behind `IN`, a query in parentheses is told by its first word. -/
  | inQuery {operand : Expr} {query : Query} {negated : Bool} : Expr.Readable operand →
      operand.ClosedAt predicateLevel predicateLevel → Query.Readable query →
      query.startsBare = true → Expr.Readable (.inQuery operand query negated)
  | like {operand pattern : Expr} {escape : Option Expr} {negated caseInsensitive : Bool} :
      Expr.Readable operand → operand.ClosedAt predicateLevel predicateLevel →
      Expr.Readable pattern → (∀ text ∈ escape, Expr.Readable text) →
      (escape.isSome = true → pattern.looserThan (predicateLevel + 1) = false →
        pattern.endsInPattern = false) →
      Expr.Readable (.like operand pattern escape negated caseInsensitive)
  | exists {query : Query} : Query.Readable query → Expr.Readable (.exists query)
  | subquery {query : Query} : Query.Readable query → Expr.Readable (.subquery query)
  | case {subject otherwise : Option Expr} {branches : List Branch} :
      (∀ value ∈ subject, Expr.Readable value) → branches ≠ [] →
      (∀ branch ∈ branches, Expr.Readable branch.condition) →
      (∀ branch ∈ branches, Expr.Readable branch.result) →
      (∀ value ∈ otherwise, Expr.Readable value) →
      Expr.Readable (.case subject branches otherwise)
  | cast {operand : Expr} {target : DataType} : Expr.Readable operand →
      Expr.Readable (.cast operand target)
  | paren {inner : Expr} : Expr.Readable inner → Expr.Readable (.paren inner)

/-- The item of a select list is readable.  A lone star is not among the items: it is a list of its
own. -/
inductive SelectItem.Readable : SelectItem → Prop
  | wildcard {qualifier : List Identifier} : qualifier ≠ [] → (∀ name ∈ qualifier, name.Valid) →
      SelectItem.Readable (.unnamed (.wildcard qualifier))
  | value {expr : Expr} {alias? : Option Identifier} : Expr.Readable expr →
      (∀ name ∈ alias?, name.Valid) → SelectItem.Readable ⟨expr, alias?⟩

/-- What matches the rows of a join is readable.  It is told whether the join needs nothing that
matches its rows. -/
inductive JoinConstraint.Readable : Bool → JoinConstraint → Prop
  | on {condition : Expr} : Expr.Readable condition → JoinConstraint.Readable false (.on condition)
  | using {columns : List Identifier} : columns ≠ [] → (∀ name ∈ columns, name.Valid) →
      JoinConstraint.Readable false (.using columns)
  | none : JoinConstraint.Readable true .none

/-- The item of a `FROM` clause is readable. -/
inductive TableRef.Readable : TableRef → Prop
  | table {name : QualifiedName} {alias? : Option Identifier} : name.Valid →
      (∀ given ∈ alias?, given.Valid) → TableRef.Readable (.table name alias?)
  | subquery {query : Query} {name : Identifier} : Query.Readable query → name.Valid →
      TableRef.Readable (.subquery query name)
  | join {left right : TableRef} {kind : JoinKind} {natural : Bool} {constraint : JoinConstraint} :
      TableRef.Readable left → TableRef.Readable right → (natural = true → kind ≠ .cross) →
      JoinConstraint.Readable (natural || kind = .cross) constraint →
      TableRef.Readable (.join left kind natural right constraint)
  | nested {inner : TableRef} : TableRef.Readable inner → TableRef.Readable (.nested inner)

/-- The specification is readable, but for its sort keys and its offset. -/
inductive QuerySpec.Readable : QuerySpec → Prop
  | mk {spec : QuerySpec} : CountReadable spec.top → spec.items ≠ [] →
      (spec.items ≠ [.unnamed (.wildcard [])] →
        ∀ item ∈ spec.items, SelectItem.Readable item) →
      spec.tables ≠ [] → (∀ table ∈ spec.tables, TableRef.Readable table) →
      (∀ condition ∈ spec.condition, Expr.Readable condition) →
      (∀ group ∈ spec.groups, Expr.Readable group) →
      (∀ condition ∈ spec.having, Expr.Readable condition) → QuerySpec.Readable spec

/-- The body of a query is readable where it stands below a set operator.  Specifications have
neither sort keys nor an offset there, and operands of set operators bind as tightly as they have
to. -/
inductive QueryBody.Readable : QueryBody → Prop
  | spec {spec : QuerySpec} : QuerySpec.Readable spec → spec.keys = [] → spec.offset = none →
      QueryBody.Readable (.spec spec)
  | setOperation {op : SetOperator} {all : Bool} {left right : QueryBody} :
      QueryBody.Readable left → left.looserThan op.level = false →
      QueryBody.Readable right → right.looserThan (op.level + 1) = false →
      QueryBody.Readable (.setOperation op all left right)
  | nested {query : Query} : Query.Readable query → QueryBody.Readable (.nested query)

/-- The query in the `WITH` clause is readable, and so is its name. -/
inductive CommonTable.Readable : CommonTable → Prop
  | mk {table : CommonTable} : table.name.Valid → (∀ column ∈ table.columns, column.Valid) →
      Query.Readable table.query → CommonTable.Readable table

/-- The query is readable: it is put together of readable parts. -/
inductive Query.Readable : Query → Prop
  | mk {commonTables : List CommonTable} {body : QueryBody} {keys : List SortKey}
      {offset : Option UInt64} : (∀ table ∈ commonTables, CommonTable.Readable table) →
      QueryBody.Readable body → (∀ key ∈ keys, Expr.Readable key.expr) → CountReadable offset →
      Query.Readable (Grammar.assembleQuery commonTables body keys offset)

end

end Adql
