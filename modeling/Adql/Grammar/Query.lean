import Adql.Grammar.Expression

/-!
# The grammar of queries

The bodies of the rules for queries: the `WITH` clause, set operations, specifications with their
clauses, and the items of a `FROM` clause.

In the outermost query a clause that fails is reported and skipped, and so is an item of the
select list; the tree then lacks what was skipped.
-/

namespace Adql.Grammar

open Adql.Parser

/-! ### Sets of kinds -/

/-- The kinds at which a parse goes on after a clause that failed. -/
def clauseSync : List TokenKind :=
  [.keyword .WHERE, .keyword .GROUP, .keyword .HAVING, .keyword .ORDER, .keyword .OFFSET,
   .keyword .UNION, .keyword .EXCEPT, .keyword .INTERSECT, .semicolon, .eof]

/-- The kinds at which a parse goes on after an item of the select list that failed. -/
def itemSync : List TokenKind :=
  [.comma, .keyword .FROM, .keyword .WHERE, .keyword .GROUP, .keyword .HAVING, .keyword .ORDER,
   .keyword .OFFSET, .semicolon, .eof]

/-! ### Numbers of rows and aliases -/

/-- A number of rows. -/
def rowCount : Parser UInt64 := do
  if ← check .integer then
    match (← current).rowCount? with
    | some count =>
      let _ ← advance
      pure count
    | none => fail
  else fail

/-- A name given to an item, with or without the word `AS`. -/
def aliasName : Parser Identifier := do
  let _ ← eatWord .AS
  identifier

/-- Names in parentheses. -/
def nameList : Parser (List Identifier) :=
  inParentheses (oneOrMore .comma identifier)

/-- A clause whose failure the outermost query survives. -/
def clause {α : Type} (ifFailed : α) (body : Parser α) : Parser α :=
  orRecover body clauseSync ifFailed

/-- One more item of a list in which items that fail are skipped. -/
def itemStep {α : Type} (item : Parser α) (items : Array α) : Parser (Step (Array α)) := do
  let item ← orRecover (some <$> item) itemSync none
  let items := item.elim items items.push
  if ← eat .comma then
    pure (.more items)
  else
    pure (.done items)

/-- Items with commas between them.  Where recovery is possible, items that fail are skipped. -/
def someItems {α : Type} (item : Parser α) : Parser (List α) := do
  if ← canRecover then
    return (← iterate (itemStep item) #[]).toList
  oneOrMore .comma item

section

variable (apply : (rule : Rule) → Parser rule.Result)

/-! ### Queries -/

/-- Sort keys behind the word `ORDER`. -/
def sortKeys : Parser (List SortKey) := do
  expectWord .BY
  oneOrMore .comma (apply .sortKey)

/-- A query with its sort keys and its offset: a lone specification keeps them itself. -/
def assembleQuery (commonTables : List CommonTable) (body : QueryBody) (keys : List SortKey)
    (offset : Option UInt64) : Query :=
  match body with
  | .spec spec => ⟨commonTables, .spec { spec with keys, offset }, [], none⟩
  | body => ⟨commonTables, body, keys, offset⟩

/-- A query. -/
def query : Parser Query := do
  let commonTables ← afterWord .WITH [] (oneOrMore .comma (apply .commonTable))
  let body ← apply .queryBody
  let keys ← afterWord .ORDER [] (clause [] (sortKeys apply))
  let offset ← afterWord .OFFSET none (clause none (some <$> rowCount))
  pure (assembleQuery commonTables body keys offset)

/-- The names of the columns of a named query, if they are given. -/
def columnNames : Parser (List Identifier) := do
  if ← eat .leftParen then
    let columns ← oneOrMore .comma identifier
    let _ ← expect .rightParen
    pure columns
  else pure []

/-- A named query. -/
def commonTable : Parser CommonTable := do
  let name ← identifier
  let columns ← columnNames
  expectWord .AS
  let query ← parenthesizedQuery apply
  pure ⟨name, columns, query⟩

/-- A sort key; ascending order need not be asked for. -/
def sortKey : Parser SortKey := do
  let expr ← apply .expression
  if ← eatWord .DESC then
    pure ⟨expr, .descending⟩
  else
    let _ ← eatWord .ASC
    pure ⟨expr, .ascending⟩

/-! ### Set operations -/

/-- The set operator at the cursor, if there is one. -/
def setOperator? : Parser (Option SetOperator) := do
  if ← checkWord .UNION then
    return some .union
  if ← checkWord .EXCEPT then
    return some .except
  if ← checkWord .INTERSECT then
    return some .intersect
  return none

/-- One more set operator that binds at a level or tighter, with its right operand. -/
def setStep (operand : Parser QueryBody) (level : Nat) (left : QueryBody) :
    Parser (Step QueryBody) := do
  match ← setOperator? with
  | none => pure (.done left)
  | some op =>
    if op.level < level then
      pure (.done left)
    else
      let _ ← advance
      let all ← eatWord .ALL
      let right ← operand
      pure (.more (.setOperation op all left right))

/-- Operands joined by the set operators that bind at a level or tighter. -/
def setOperations (operand : Parser QueryBody) (level : Nat) : Parser QueryBody := do
  let first ← operand
  iterate (setStep operand level) first

/-- A query body: the operands of `UNION` and `EXCEPT` are joined by `INTERSECT`. -/
def queryBody : Parser QueryBody :=
  setOperations (setOperations (apply .queryTerm) SetOperator.intersect.level)
    SetOperator.union.level

/-- An operand of a set operator: a specification, or a query in parentheses. -/
def queryTerm : Parser QueryBody := do
  if ← checkWord .SELECT then
    return .spec (← apply .querySpec)
  if ← eat .leftParen then
    let query ← apply .query
    let _ ← expect .rightParen
    return .nested query
  fail

/-! ### Specifications -/

/-- Does a specification leave out repeated rows? -/
def distinctness : Parser Bool := do
  if ← eatWord .DISTINCT then
    pure true
  else
    let _ ← eatWord .ALL
    pure false

/-- The items of a `FROM` clause, the word included. -/
def fromClause : Parser (List TableRef) := do
  expectWord .FROM
  oneOrMore .comma (apply .tableReference)

/-- Grouping expressions behind the word `GROUP`. -/
def groups : Parser (List Expr) := do
  expectWord .BY
  expressions apply

/-- A condition that may be missing, behind a word. -/
def condition (word : Keyword) : Parser (Option Expr) :=
  afterWord word none (clause none (some <$> apply .expression))

/-- A specification. -/
def querySpec : Parser QuerySpec := do
  expectWord .SELECT
  let distinct ← distinctness
  let top ← afterWord .TOP none (some <$> rowCount)
  let items ← apply .selectList
  let tables ← clause [] (fromClause apply)
  let rows ← condition apply .WHERE
  let groups ← afterWord .GROUP [] (clause [] (groups apply))
  let having ← condition apply .HAVING
  pure ⟨distinct, top, items, tables, rows, groups, having, [], none⟩

/-- A select list: everything, or items. -/
def selectList : Parser (List SelectItem) := do
  if ← eat .star then
    return [.unnamed (.wildcard [])]
  someItems (apply .selectItem)

/-- One more qualifier of a wildcard, or its star. -/
def wildcardStep (state : Array Identifier × Bool) : Parser (Step (Array Identifier × Bool)) := do
  let _ ← expect .dot
  if ← eat .star then
    pure (.done (state.1, true))
  else
    pure (.more (state.1.push (← identifier), false))

/-- All columns of a table. -/
def qualifiedWildcard : Parser SelectItem := do
  let first ← identifier
  let (qualifier, _) ← iterate wildcardStep (#[first], false)
  pure (.unnamed (.wildcard qualifier.toList))

/-- An expression with an optional name. -/
def derivedColumn : Parser SelectItem := do
  let expr ← apply .expression
  let alias? ← optional (apply .aliasName)
  pure ⟨expr, alias?⟩

/-- An item of a select list.  A name and a point may start a wildcard or an expression. -/
def selectItem : Parser SelectItem := do
  if (← currentKind).isIdentifier && (← nextKind) = .dot then
    firstOf (apply .qualifiedWildcard) (apply .derivedColumn)
  else derivedColumn apply

/-! ### Tables -/

/-- The kind of an outer join, if there is one. -/
def outerJoin? : Parser (Option JoinKind) := do
  if ← eatWord .LEFT then
    return some .left
  if ← eatWord .RIGHT then
    return some .right
  if ← eatWord .FULL then
    return some .full
  return none

/-- The words of a join up to and with `JOIN`, if there is a join. -/
def joinKind? (natural : Bool) : Parser (Option JoinKind) := do
  if ← (if natural then pure false else eatWord .CROSS) then
    expectWord .JOIN
    return some .cross
  if ← eatWord .JOIN then
    return some .inner
  if ← eatWord .INNER then
    expectWord .JOIN
    return some .inner
  match ← outerJoin? with
  | some kind =>
    let _ ← eatWord .OUTER
    expectWord .JOIN
    return some kind
  | none => if natural then fail else return none

/-- What matches the rows of a join; natural joins and products are free of it. -/
def joinConstraint (free : Bool) : Parser JoinConstraint := do
  if free then
    return .none
  if ← eatWord .ON then
    return .on (← apply .expression)
  if ← eatWord .USING then
    return .using (← nameList)
  fail

/-- One more join. -/
def joinStep (left : TableRef) : Parser (Step TableRef) := do
  let natural ← eatWord .NATURAL
  match ← joinKind? natural with
  | none => pure (.done left)
  | some kind =>
    let right ← apply .tablePrimary
    let constraint ← joinConstraint apply (natural || kind = .cross)
    pure (.more (.join left kind natural right constraint))

/-- A table with any number of joins. -/
def tableReference : Parser TableRef := do
  let first ← apply .tablePrimary
  iterate (joinStep apply) first

/-- A table: a query or joins in parentheses, or a name. -/
def tablePrimary : Parser TableRef := do
  if ← check .leftParen then
    firstOf (apply .derivedTable) (apply .nestedTable)
  else
    let name ← qualifiedName
    let alias? ← optional (apply .aliasName)
    pure (.table name alias?)

/-- A query that stands for a table, with its name. -/
def derivedTable : Parser TableRef := do
  let query ← parenthesizedQuery apply
  let name ← aliasName
  pure (.subquery query name)

/-- Joins in parentheses. -/
def nestedTable : Parser TableRef :=
  .nested <$> inParentheses (apply .tableReference)

end

end Adql.Grammar
