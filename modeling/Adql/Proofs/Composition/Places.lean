import Adql.Proofs.Composition.Queries
import Adql.Proofs.Queries.SetOperations
import Mathlib.Logic.Function.Iterate

/-!
# Places where queries stand in parentheses

A query that is read up to the end of its words is read in parentheses wherever the grammar asks for
one: behind `EXISTS` (`reads_exists`), as a table (`reads_derivedTable`), behind the name of a common
table (`reads_commonTable`), as an operand of a set operator (`reads_enclosedTerm`) and as an item of
a select list (`reads_queryItem`).  In each place the parenthesis is found in another way, but behind
it the same rule is applied.

Each place is put into the smallest statement that has it: `reads_whereExists`, `reads_fromQuery`,
`reads_withQuery`, `reads_queryUnion` and `reads_selectQuery`.
-/

namespace Adql

open Adql.Parser Adql.Grammar

variable {query : Query} {words behind : List Word} {allowance : Nat}

/-! ### Parentheses -/

/-- In front of a closing parenthesis, a query is read up to the parenthesis. -/
theorem reads_toClosing (h : Reads (apply true allowance .query) words query [])
    (behind : List Word) :
    Reads (apply true allowance .query) (words ++ TokenKind.rightParen.word :: behind) query
      (TokenKind.rightParen.word :: behind) :=
  h.enclosed rfl

/-- A query is read in parentheses. -/
theorem reads_enclosedQuery (h : Reads (apply true allowance .query) words query [])
    (behind : List Word) :
    Reads (parenthesizedQuery (apply true allowance)) (enclosed words ++ behind) query behind := by
  rw [enclosed, List.cons_append, List.append_assoc, List.singleton_append]
  exact .expect_bind rfl ((reads_toClosing h behind).bind (.expect_bind rfl (.pure query behind)))

/-- Behind `EXISTS`, a query in parentheses is read. -/
theorem reads_exists (h : Reads (apply true allowance .query) words query [])
    (ends : endsExpression (firstKind behind) = true) :
    Reads (apply true (allowance + 3) .expression) (Keyword.EXISTS.word :: (enclosed words ++ behind))
      (.exists query) behind := by
  have test : Reads (apply true (allowance + 1) .exists)
      (Keyword.EXISTS.word :: (enclosed words ++ behind)) (.exists query) behind :=
    .apply ((Reads.expectWord .EXISTS _).bind (.map Expr.exists (reads_enclosedQuery h behind)))
  have first : Reads (operand true (apply true (allowance + 1)))
      (Keyword.EXISTS.word :: (enclosed words ++ behind)) (.exists query) behind :=
    reads_operand rfl (show TokenKind.keyword .EXISTS ∉ literalKinds by decide) test
  exact .apply (reads_operators first (.refl _ _) (stops_of_ends ends 0))

/-- A query in parentheses with a name is read as a table. -/
theorem reads_derivedTable (h : Reads (apply true allowance .query) words query [])
    {name : Identifier} (valid : name.Valid) (behind : List Word) :
    Reads (apply true (allowance + 2) .tablePrimary)
      (enclosed words ++ Keyword.AS.word :: name.word :: behind) (.subquery query name) behind := by
  have named : Reads aliasName (Keyword.AS.word :: name.word :: behind) name behind :=
    (Reads.eat_true rfl).bind (reads_identifier valid.identifier? behind)
  have derived : Reads (apply true (allowance + 1) .derivedTable)
      (enclosed words ++ Keyword.AS.word :: name.word :: behind) (.subquery query name) behind :=
    .apply ((reads_enclosedQuery h _).bind (named.bind (.pure _ behind)))
  exact .apply ((Reads.check_true rfl).bind (.firstOf_left derived))

/-- Behind a name and `AS`, a query in parentheses is read as a common table. -/
theorem reads_commonTable (h : Reads (apply true allowance .query) words query [])
    {name : Identifier} (valid : name.Valid) (behind : List Word) :
    Reads (apply true (allowance + 1) .commonTable)
      (name.word :: Keyword.AS.word :: (enclosed words ++ behind)) ⟨name, [], query⟩ behind := by
  have other : firstKind (Keyword.AS.word :: (enclosed words ++ behind)) ≠ .leftParen := nofun
  have noColumns : Reads columnNames (Keyword.AS.word :: (enclosed words ++ behind)) [] _ :=
    (Reads.eat_false other).bind (.pure [] _)
  refine .apply ((reads_identifier valid.identifier? _).bind (noColumns.bind ?_))
  exact (Reads.expectWord .AS _).bind ((reads_enclosedQuery h behind).bind (.pure _ behind))

/-- A query in parentheses is read as an operand of a set operator. -/
theorem reads_enclosedTerm (h : Reads (apply true allowance .query) words query [])
    (behind : List Word) :
    Reads (apply true (allowance + 1) .queryTerm) (enclosed words ++ behind) (.nested query)
      behind := by
  rw [enclosed, List.cons_append, List.append_assoc, List.singleton_append]
  exact reads_nestedTerm rfl rfl (reads_toClosing h behind)

/-- An expression that does not start with a name is read as an item of a select list. -/
theorem reads_unnamedItem {expr : Expr} (noName : (firstKind words).isIdentifier = false)
    (follows : firstKind behind ∈ afterItem?)
    (h : Reads (apply true (allowance + 1) .expression) words expr behind) :
    Reads (apply true (allowance + 2) .selectItem) words (.unnamed expr) behind := by
  have ahead : ∀ kind ∈ afterItem?, kind ≠ .keyword .AS ∧ kind.isIdentifier = false := by decide
  obtain ⟨other, noLabel⟩ := ahead _ follows
  refine .apply ((Reads.currentKind words).bind ((Reads.nextKind words).bind ?_))
  rw [noName, Bool.false_and, if_neg Bool.false_ne_true]
  have unnamed : Reads (optional (apply true (allowance + 1) .aliasName)) (aliasWords none ++ behind)
      none behind := reads_optionalAlias nofun other noLabel
  exact h.bind (unnamed.bind (.pure _ behind))

/-- A query in parentheses is read as an item of a select list: as what stands for it as an
expression. -/
theorem reads_queryItem (h : Reads (apply true allowance .query) words query [])
    (follows : firstKind behind ∈ afterItem?) :
    ∃ more expr, query.StandsAs expr ∧
      Reads (apply true more .selectItem) (enclosed words ++ behind) (.unnamed expr) behind := by
  have ends : ∀ kind ∈ afterItem?, endsExpression kind = true := by decide
  have opening : TokenKind.leftParen.word.kind = .leftParen := rfl
  obtain ⟨more, expr, reads, stands⟩ :=
    reads_parenthesizedQuery opening rfl (reads_toClosing h behind) (ends _ follows)
  refine ⟨more + 2, expr, stands, ?_⟩
  rw [enclosed, List.cons_append, List.append_assoc, List.singleton_append]
  exact reads_unnamedItem rfl follows (reads.of_le (Nat.le_succ more))

/-- What stands for a query as an expression is a subquery in as many parentheses as there are around
the query. -/
theorem Query.StandsAs.exists_iterate {expr : Expr} (h : query.StandsAs expr) :
    ∃ count core, (∀ inner, core ≠ inParentheses inner) ∧ query = inParentheses^[count] core ∧
      expr = Expr.paren^[count] (.subquery core) := by
  induction h with
  | @subquery query bare => exact ⟨0, query, bare, rfl, rfl⟩
  | paren _ ih =>
    obtain ⟨count, core, bare, rfl, rfl⟩ := ih
    exact ⟨count + 1, core, bare, (Function.iterate_succ_apply' _ _ _).symm,
      (Function.iterate_succ_apply' _ _ _).symm⟩

/-! ### Statements -/

/-- The specification that selects an item from a table, if a condition holds. -/
def selecting (item : Expr) (table : TableRef) (condition : Option Expr) : QuerySpec :=
  { QuerySpec.empty with items := [.unnamed item], tables := [table], condition }

section

variable {item : Expr} {table : TableRef} {rows : Option Expr}
  {itemWords tableWords rowWords : List Word} {column name : Identifier}

/-- The selection of an item from a table is read, as an operand of a set operator. -/
theorem reads_selecting (bare : ∀ keyword, firstKind itemWords ≠ .keyword keyword)
    (noStar : firstKind itemWords ≠ .star)
    (itemRead : Reads (apply true allowance .selectItem) itemWords (.unnamed item)
      (Keyword.FROM.word :: tableWords))
    (tableRead : Reads (apply true allowance .tablePrimary) tableWords table rowWords)
    (endsTable : firstKind rowWords ∈ .keyword .WHERE :: afterTerm)
    (rowsRead : Reads (condition (apply true (allowance + 1)) .WHERE) rowWords rows behind)
    (follows : firstKind behind ∈ afterTerm) :
    Reads (apply true (allowance + 3) .queryTerm) (Keyword.SELECT.word :: itemWords)
      (.spec (selecting item table rows)) behind := by
  have ahead : ∀ kind ∈ .keyword .WHERE :: afterTerm, kind ∈ afterReference ∧ kind ≠ .comma := by
    decide
  obtain ⟨ends, noComma⟩ := ahead _ endsTable
  have stops : firstKind (Keyword.FROM.word :: tableWords) ≠ .comma := nofun
  have list := reads_selectList_of_items noStar (reads_oneOrMore_singleton itemRead stops)
  have tables := reads_oneOrMore_singleton (reads_tableReference tableRead ends) noComma
  have spec := reads_querySpec bare list tables rowsRead follows
  exact .apply ((Reads.check_true rfl).bind (spec.bind (.pure _ behind)))

/-- A selection that is read as an operand is read as a query. -/
theorem reads_ofSpec (ends : firstKind behind ∉ afterOperand)
    (h : Reads (apply true allowance .queryTerm) (Keyword.SELECT.word :: words)
      (.spec (selecting item table rows)) behind) :
    Reads (apply true (allowance + 2) .query) (Keyword.SELECT.word :: words)
      (.ofSpec (selecting item table rows)) behind := by
  have other : firstKind (Keyword.SELECT.word :: words) ≠ .keyword .WITH := nofun
  exact reads_query ends (.afterWord_none other) (reads_queryBody_of_term ends h)

/-- A column is read as an item of a select list. -/
theorem reads_columnItem (valid : column.Valid) (follows : firstKind behind ∈ afterItem?) :
    Reads (apply true (allowance + 4) .selectItem) (column.word :: behind)
      (.unnamed (.column ⟨[], column⟩)) behind := by
  have isColumn : (SelectItem.unnamed (.column ⟨[], column⟩)).IsColumn :=
    ⟨fun part mem => List.mem_singleton.mp mem ▸ valid, nofun⟩
  exact isColumn.reads follows

/-- A table is read by its name. -/
theorem reads_plainTable (valid : name.Valid) (follows : firstKind behind ∈ afterTable) :
    Reads (apply true (allowance + 2) .tablePrimary) (name.word :: behind)
      (.table ⟨[], name⟩ none) behind := by
  have isNamed : (TableRef.table ⟨[], name⟩ none).IsNamed :=
    ⟨fun part mem => List.mem_singleton.mp mem ▸ valid, nofun⟩
  exact isNamed.reads follows

/-- A column is selected from a table, behind which a condition may follow. -/
theorem reads_selectingColumn (valid : column.Valid)
    (tableRead : Reads (apply true (allowance + 4) .tablePrimary) tableWords table rowWords)
    (endsTable : firstKind rowWords ∈ .keyword .WHERE :: afterTerm)
    (rowsRead : Reads (condition (apply true (allowance + 5)) .WHERE) rowWords rows behind)
    (follows : firstKind behind ∈ afterTerm) :
    Reads (apply true (allowance + 7) .queryTerm)
      (Keyword.SELECT.word :: column.word :: Keyword.FROM.word :: tableWords)
      (.spec (selecting (.column ⟨[], column⟩) table rows)) behind := by
  have named : column.word.kind.isIdentifier = true :=
    isIdentifier_of_identifier? valid.identifier?
  have other {kind : TokenKind} (h : kind.isIdentifier = false) : column.word.kind ≠ kind :=
    firstKind_ne_of_isIdentifier (show (firstKind [column.word]).isIdentifier = true from named) h
  exact reads_selecting (fun _ => other rfl) (other rfl)
    (reads_columnItem valid (show TokenKind.keyword .FROM ∈ afterItem? by decide)) tableRead endsTable
    rowsRead follows

/-- A column is selected from a table that is named. -/
theorem reads_plainSelection (validColumn : column.Valid) (validName : name.Valid) :
    Reads (apply true (allowance + 7) .queryTerm)
      [Keyword.SELECT.word, column.word, Keyword.FROM.word, name.word]
      (.spec (selecting (.column ⟨[], column⟩) (.table ⟨[], name⟩ none) none)) [] :=
  reads_selectingColumn validColumn
    (reads_plainTable validName (show TokenKind.eof ∈ afterTable by decide)) (by decide)
    (.afterWord_none nofun) (by decide)

variable {label : Identifier}

/-- The query stands behind `EXISTS` in a condition. -/
theorem reads_whereExists (h : Reads (apply true allowance .query) words query [])
    (validColumn : column.Valid) (validName : name.Valid) :
    ∃ depth, Reads (apply true depth .query)
      ([Keyword.SELECT.word, column.word, Keyword.FROM.word, name.word, Keyword.WHERE.word,
        Keyword.EXISTS.word] ++ enclosed words)
      (.ofSpec (selecting (.column ⟨[], column⟩) (.table ⟨[], name⟩ none) (some (.exists query)))) [] := by
  have test : Reads (apply true (allowance + 5) .expression)
      (Keyword.EXISTS.word :: (enclosed words ++ [])) (.exists query) [] :=
    reads_exists (h.of_le (Nat.le_add_right allowance 2)) rfl
  rw [List.append_nil] at test
  have rows : Reads (condition (apply true (allowance + 5)) .WHERE)
      (Keyword.WHERE.word :: Keyword.EXISTS.word :: enclosed words) (some (.exists query)) [] :=
    .afterWord_some none (.orRecover _ _ (.map some test))
  have table : Reads (apply true (allowance + 4) .tablePrimary)
      (name.word :: Keyword.WHERE.word :: Keyword.EXISTS.word :: enclosed words)
      (.table ⟨[], name⟩ none) _ :=
    reads_plainTable validName (show TokenKind.keyword .WHERE ∈ afterTable by decide)
  exact ⟨allowance + 9, reads_ofSpec (by decide)
    (reads_selectingColumn validColumn table List.mem_cons_self rows (by decide))⟩

/-- The query stands for a table. -/
theorem reads_fromQuery (h : Reads (apply true allowance .query) words query [])
    (validColumn : column.Valid) (validLabel : label.Valid) :
    ∃ depth, Reads (apply true depth .query)
      ([Keyword.SELECT.word, column.word, Keyword.FROM.word] ++ enclosed words ++
        [Keyword.AS.word, label.word])
      (.ofSpec (selecting (.column ⟨[], column⟩) (.subquery query label) none)) [] := by
  have table := reads_derivedTable (h.of_le (Nat.le_add_right allowance 2)) validLabel []
  exact ⟨allowance + 9, reads_ofSpec (by decide)
    (reads_selectingColumn validColumn table (by decide) (.afterWord_none nofun) (by decide))⟩

/-- The query stands behind the name of a common table. -/
theorem reads_withQuery (h : Reads (apply true allowance .query) words query [])
    (validLabel : label.Valid) (validColumn : column.Valid) (validName : name.Valid) :
    ∃ depth, Reads (apply true depth .query)
      ([Keyword.WITH.word, label.word, Keyword.AS.word] ++ enclosed words ++
        [Keyword.SELECT.word, column.word, Keyword.FROM.word, name.word])
      ⟨[⟨label, [], query⟩],
        .spec (selecting (.column ⟨[], column⟩) (.table ⟨[], name⟩ none) none), [], none⟩ [] := by
  let selection := [Keyword.SELECT.word, column.word, Keyword.FROM.word, name.word]
  have common := reads_commonTable (h.of_le (Nat.le_add_right allowance 7)) validLabel selection
  have tables : Reads (afterWord .WITH [] (oneOrMore .comma (apply true (allowance + 8) .commonTable)))
      (Keyword.WITH.word :: label.word :: Keyword.AS.word :: (enclosed words ++ selection))
      [⟨label, [], query⟩] selection :=
    .afterWord_some [] (reads_oneOrMore_singleton common nofun)
  have body : Reads (apply true (allowance + 8) .queryBody) selection _ [] :=
    reads_queryBody_of_term (by decide) (reads_plainSelection validColumn validName)
  exact ⟨allowance + 9, reads_query (by decide) tables body⟩

/-- The query is an operand of a union. -/
theorem reads_queryUnion (h : Reads (apply true allowance .query) words query [])
    (validColumn : column.Valid) (validName : name.Valid) :
    ∃ depth, Reads (apply true depth .query)
      (enclosed words ++
        [Keyword.UNION.word, Keyword.SELECT.word, column.word, Keyword.FROM.word, name.word])
      ⟨[], .setOperation .union false (.nested query)
        (.spec (selecting (.column ⟨[], column⟩) (.table ⟨[], name⟩ none) none)), [], none⟩ [] := by
  let selection := [Keyword.SELECT.word, column.word, Keyword.FROM.word, name.word]
  have left := reads_enclosedTerm (h.of_le (Nat.le_add_right allowance 6))
    (Keyword.UNION.word :: selection)
  have right : Reads (apply true (allowance + 7) .queryTerm) selection _ [] :=
    reads_plainSelection validColumn validName
  let operand := QueryBody.intersections (allowance + 7)
  have chain : Chains operand (setStep operand SetOperator.union.level)
      (enclosed words ++ Keyword.UNION.word :: (wordIf .ALL false ++ selection) ++ [])
      (.setOperation .union false (.nested query) _) [] :=
    QueryBody.chains_setOperation
      (.of_reads (QueryBody.reads_intersections (by nofun) (.of_reads left))) (by nofun)
      (QueryBody.reads_intersections (by decide) (.of_reads right))
  have body : Reads (apply true (allowance + 8) .queryBody) _ _ [] :=
    .apply (chain.reads (reads_setStep_done _ nofun))
  rw [List.append_nil] at body
  have other : firstKind (enclosed words ++ Keyword.UNION.word :: selection) ≠ .keyword .WITH := nofun
  exact ⟨allowance + 9, reads_query (by decide) (.afterWord_none other) body⟩

/-- The query is an item of a select list. -/
theorem reads_selectQuery (h : Reads (apply true allowance .query) words query [])
    (validName : name.Valid) :
    ∃ depth expr, query.StandsAs expr ∧ Reads (apply true depth .query)
      ([Keyword.SELECT.word] ++ enclosed words ++ [Keyword.FROM.word, name.word])
      (.ofSpec (selecting expr (.table ⟨[], name⟩ none) none)) [] := by
  have follows : firstKind [Keyword.FROM.word, name.word] ∈ afterItem? :=
    show TokenKind.keyword .FROM ∈ afterItem? by decide
  obtain ⟨more, expr, stands, read⟩ := reads_queryItem h follows
  have table : Reads (apply true (more + 2) .tablePrimary) [name.word] (.table ⟨[], name⟩ none) [] :=
    reads_plainTable validName (show TokenKind.eof ∈ afterTable by decide)
  refine ⟨more + 7, expr, stands, reads_ofSpec (by decide) ?_⟩
  exact reads_selecting (fun _ => nofun) nofun (read.of_le (Nat.le_add_right more 2)) table (by decide)
    (.afterWord_none nofun) (by decide)

end

end Adql
