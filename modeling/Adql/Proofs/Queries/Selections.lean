import Adql.Proofs.Expressions.Restoring
import Adql.Proofs.RoundTrip.DeadEnds

/-!
# Reading selections

A selection is a specification that selects columns of a table by their names.  Its words are read as
the selection (`QuerySpec.IsSelection.reads`), and so are those of its parts: columns with and without
a name (`SelectItem.IsColumn.reads`), tables with and without one (`TableRef.IsNamed.reads`), and two
columns with a binary operator between them (`reads_comparison`), as they stand in the condition of a
join.
-/

namespace Adql

open Adql.Parser Adql.Grammar

variable {behind : List Word} {allowance : Nat}

/-! ### Names -/

/-- A name that is given to a table or a select item is read, and so is a name that is missing. -/
theorem reads_optionalAlias {alias? : Option Identifier} (valid : ∀ name ∈ alias?, name.Valid)
    (other : firstKind behind ≠ .keyword .AS) (noName : (firstKind behind).isIdentifier = false) :
    Reads (optional (apply true (allowance + 1) .aliasName)) (aliasWords alias? ++ behind) alias?
      behind := by
  cases alias? with
  | none =>
    have stalls : Stalls (apply true (allowance + 1) .aliasName) behind :=
      .apply (.bind_right (.eat_false other) (identifier_stalls noName))
    exact .optional_none (stalls.fails rfl)
  | some name =>
    have named : Reads (apply true (allowance + 1) .aliasName)
        (Keyword.AS.word :: name.word :: behind) name behind :=
      .apply ((Reads.eat_true rfl).bind (reads_identifier (valid name rfl).identifier? behind))
    exact .optional_some named

/-- The words of a name that may be missing can be written. -/
theorem spelled_aliasWords {alias? : Option Identifier} (valid : ∀ name ∈ alias?, name.Valid) :
    ∀ word ∈ aliasWords alias?, word.Spelled := by
  cases alias? with
  | none => exact fun _ h => nomatch h
  | some name =>
    exact List.forall_mem_cons.mpr ⟨rfl, List.forall_mem_singleton.mpr (valid name rfl).spelled⟩

/-! ### Columns -/

/-- A column is read as an expression. -/
theorem reads_columnExpression {name : QualifiedName} (valid : name.Valid)
    (ends : endsExpression (firstKind behind) = true) :
    Reads (apply true (allowance + 2) .expression) (name.words ++ behind) (.column name) behind := by
  have follow : Follow [] behind := .of_ends ends
  exact .apply (reads_operators (reads_column valid follow.dot follow.leftParen) (.refl _ _)
    (stops_of_ends ends 0))

/-- The words of a comparison of columns: the columns with the operator between them. -/
theorem words_comparison (left right : QualifiedName) (op : BinaryOp) :
    (Expr.binary (.column left) op (.column right)).words true =
      left.words ++ op.token.word :: right.words := by
  cases op <;> rfl

/-- Two columns with a binary operator between them are read as an expression. -/
theorem reads_comparison {left right : QualifiedName} (op : BinaryOp) (validLeft : left.Valid)
    (validRight : right.Valid) (ends : endsExpression (firstKind behind) = true) :
    Reads (apply true (allowance + 3) .expression)
      (left.words ++ op.token.word :: (right.words ++ behind))
      (.binary (.column left) op (.column right)) behind := by
  have follow : Follow [] behind := .of_ends ends
  have second : Reads (apply true (allowance + 1) (.operators (PrecedenceTable.adql.rightLevel op)))
      (right.words ++ behind) (.column right) behind :=
    reads_operators (reads_column validRight follow.dot follow.leftParen) (.refl _ _)
      (stops_of_ends ends _)
  rw [PrecedenceTable.rightLevel_adql] at second
  have step : Reads (operatorStep (apply true (allowance + 1)) 0 (.column left))
      (op.token.word :: (right.words ++ behind)) (.more (.binary (.column left) op (.column right)))
      behind :=
    reads_binaryStep (PrecedenceTable.binding?_adql op) rfl (Nat.zero_le _) second
  have first : Reads (operand true (apply true (allowance + 1)))
      (left.words ++ op.token.word :: (right.words ++ behind)) (.column left)
      (op.token.word :: (right.words ++ behind)) := by
    refine reads_column validLeft ?_ ?_
    all_goals
      show op.token ≠ _
      cases op <;> nofun
  exact .apply (reads_operators first (.word_cons step (.refl _ _)) (stops_of_ends ends 0))

/-- The select item is a column, with a name or without one. -/
inductive SelectItem.IsColumn : SelectItem → Prop
  | mk {column : QualifiedName} {alias? : Option Identifier} : column.Valid →
      (∀ name ∈ alias?, name.Valid) → IsColumn ⟨.column column, alias?⟩

namespace SelectItem.IsColumn

variable {item : SelectItem}

/-- The words of a column can be written. -/
theorem spelled (h : item.IsColumn) : ∀ word ∈ item.words true, word.Spelled := by
  cases h with
  | mk valid validAlias =>
    exact List.forall_mem_append.mpr ⟨valid.spelled, spelled_aliasWords validAlias⟩

/-- A column is read as an expression with a name that may be missing. -/
theorem reads_derivedColumn (h : item.IsColumn) (follows : firstKind behind ∈ afterItem?) :
    Reads (derivedColumn (apply true (allowance + 2))) (item.words true ++ behind) item behind := by
  cases h with
  | @mk column alias? valid validAlias =>
    have ahead : ∀ kind ∈ afterItem?, kind ≠ .keyword .AS ∧ kind.isIdentifier = false ∧
        endsExpression kind = true := by decide
    obtain ⟨other, noName, ends⟩ := ahead _ follows
    have endsColumn : endsExpression (firstKind (aliasWords alias? ++ behind)) = true := by
      rcases firstKind_aliasWords alias? behind with found | found
      · rw [found]
        decide
      · rwa [found]
    have read : Reads (apply true (allowance + 2) .expression) _ (.column column) _ :=
      reads_columnExpression valid endsColumn
    rw [SelectItem.words, Expr.words, List.append_assoc]
    exact read.bind ((reads_optionalAlias validAlias other noName).bind (.pure _ _))

/-- A column is read as a select item; it is no wildcard, even if it is qualified. -/
theorem reads (h : item.IsColumn) (follows : firstKind behind ∈ afterItem?) :
    Reads (apply true (allowance + 4) .selectItem) (item.words true ++ behind) item behind := by
  refine .apply ((Reads.currentKind _).bind ((Reads.nextKind _).bind ?_))
  split
  · have column : Reads (derivedColumn (apply true (allowance + 2))) _ item behind :=
      h.reads_derivedColumn follows
    exact .firstOf_right (qualifiedWildcard_fails column) (.apply column)
  · exact h.reads_derivedColumn follows

/-- The words of a column start with a name. -/
theorem firstKind (h : item.IsColumn) (behind : List Word) :
    (firstKind (item.words true ++ behind)).isIdentifier = true := by
  cases h with
  | mk valid _ =>
    rw [SelectItem.words, Expr.words, List.append_assoc]
    exact valid.firstKind _

end SelectItem.IsColumn

/-- The words of columns start with a name. -/
theorem firstKind_columns {items : List SelectItem} (nonempty : items ≠ [])
    (columns : ∀ item ∈ items, item.IsColumn) (behind : List Word) :
    (firstKind (separated .comma (items.map (SelectItem.words true)) ++ behind)).isIdentifier =
      true := by
  cases items with
  | nil => exact absurd rfl nonempty
  | cons item rest =>
    rw [List.map_cons, separated_cons, List.append_assoc]
    exact (columns item List.mem_cons_self).firstKind _

/-- Where a name stands, there is no other word. -/
theorem firstKind_ne_of_isIdentifier {words : List Word} {kind : TokenKind}
    (named : (firstKind words).isIdentifier = true) (other : kind.isIdentifier = false) :
    firstKind words ≠ kind := by
  rintro rfl
  rw [named] at other
  cases other

/-- A single item is read as a list. -/
theorem reads_oneOrMore_singleton {α : Type} {item : Parser α} {separator : TokenKind} {a : α}
    {words : List Word} (h : Reads item words a behind) (stops : firstKind behind ≠ separator) :
    Reads (oneOrMore separator item) words [a] behind := by
  have done : Reads (listStep separator item #[a]) behind (.done #[a]) behind :=
    (Reads.eat_false stops).bind (.pure _ behind)
  exact h.bind (((Repeats.refl #[a] behind).iterate done).bind (.pure [a] behind))

/-- Items that do not start with a star are read as a select list. -/
theorem reads_selectList_of_items {items : List SelectItem} {words : List Word}
    (noStar : firstKind words ≠ .star)
    (h : Reads (oneOrMore .comma (apply true allowance .selectItem)) words items behind) :
    Reads (apply true (allowance + 1) .selectList) words items behind :=
  .apply ((Reads.eat_false noStar).bind ((Reads.canRecover words).bind h))

/-- Columns are read as a select list. -/
theorem reads_selectList {items : List SelectItem} (nonempty : items ≠ [])
    (columns : ∀ item ∈ items, item.IsColumn) (ends : firstKind behind = .keyword .FROM) :
    Reads (apply true (allowance + 5) .selectList)
      (separated .comma (items.map (SelectItem.words true)) ++ behind) items behind := by
  have named := firstKind_columns nonempty columns behind
  refine reads_selectList_of_items (firstKind_ne_of_isIdentifier named rfl) ?_
  exact reads_separated (F := fun words => firstKind words ∈ afterItem?)
    (fun _ => show TokenKind.comma ∈ afterItem? by decide) (ends ▸ by decide) (by rw [ends]; nofun)
    nonempty fun item mem words follows => (columns item mem).reads follows

/-! ### Tables -/

/-- The table is named, with another name for it or without one. -/
inductive TableRef.IsNamed : TableRef → Prop
  | mk {name : QualifiedName} {alias? : Option Identifier} : name.Valid →
      (∀ given ∈ alias?, given.Valid) → IsNamed (.table name alias?)

namespace TableRef.IsNamed

variable {table : TableRef}

/-- The words of a named table can be written. -/
theorem spelled (h : table.IsNamed) : ∀ word ∈ table.words true, word.Spelled := by
  cases h with
  | mk valid validAlias =>
    exact List.forall_mem_append.mpr ⟨valid.spelled, spelled_aliasWords validAlias⟩

/-- The words of a named table start with a name. -/
theorem firstKind (h : table.IsNamed) (behind : List Word) :
    (firstKind (table.words true ++ behind)).isIdentifier = true := by
  cases h with
  | mk valid _ =>
    rw [TableRef.words, List.append_assoc]
    exact valid.firstKind _

/-- A named table is read. -/
theorem reads (h : table.IsNamed) (follows : Adql.firstKind behind ∈ afterTable) :
    Reads (apply true (allowance + 2) .tablePrimary) (table.words true ++ behind) table behind := by
  have noParen : Adql.firstKind (table.words true ++ behind) ≠ .leftParen :=
    ne_leftParen_of_isIdentifier (h.firstKind behind)
  cases h with
  | @mk name alias? valid validAlias =>
    have ahead : ∀ kind ∈ afterTable, kind ≠ .keyword .AS ∧ kind.isIdentifier = false ∧
        kind ≠ .dot := by decide
    obtain ⟨other, noName, noDot⟩ := ahead _ follows
    have stops : Adql.firstKind (aliasWords alias? ++ behind) ≠ .dot := by
      rcases firstKind_aliasWords alias? behind with found | found
      · rw [found]
        nofun
      · rwa [found]
    refine .apply ((Reads.check_false noParen).bind ?_)
    rw [TableRef.words, List.append_assoc]
    exact (reads_qualifiedName valid stops).bind
      ((reads_optionalAlias validAlias other noName).bind (.pure _ _))

end TableRef.IsNamed

/-- A table is read as a table with joins, where there are none. -/
theorem reads_tableReference {table : TableRef} {words : List Word}
    (h : Reads (apply true allowance .tablePrimary) words table behind)
    (ends : firstKind behind ∈ afterReference) :
    Reads (apply true (allowance + 1) .tableReference) words table behind :=
  .apply (h.bind ((Repeats.refl table behind).iterate (reads_joinStep_done _ table ends)))

/-! ### Specifications -/

/-- A specification is read clause by clause, if it has no clauses but a condition that may be missing.
-/
theorem reads_querySpec {items : List SelectItem} {tables : List TableRef} {rows : Option Expr}
    {listWords tableWords rowWords : List Word}
    (bare : ∀ keyword, firstKind listWords ≠ .keyword keyword)
    (list : Reads (apply true allowance .selectList) listWords items
      (Keyword.FROM.word :: tableWords))
    (tablesRead : Reads (oneOrMore .comma (apply true allowance .tableReference)) tableWords tables
      rowWords)
    (rowsRead : Reads (condition (apply true allowance) .WHERE) rowWords rows behind)
    (follows : firstKind behind ∈ afterTerm) :
    Reads (apply true (allowance + 1) .querySpec) (Keyword.SELECT.word :: listWords)
      ⟨false, none, items, tables, rows, [], none, [], none⟩ behind := by
  have ahead : ∀ kind ∈ afterTerm, kind ≠ .keyword .GROUP ∧ kind ≠ .keyword .HAVING := by decide
  obtain ⟨noGroup, noHaving⟩ := ahead _ follows
  have all : Reads distinctness listWords false listWords :=
    (Reads.eat_false (bare .DISTINCT)).bind ((Reads.eat_false (bare .ALL)).bind (.pure false _))
  have source : Reads (fromClause (apply true allowance)) (Keyword.FROM.word :: tableWords) tables
      rowWords := (Reads.expectWord .FROM _).bind tablesRead
  refine .apply ((Reads.expectWord .SELECT _).bind (all.bind ?_))
  refine (Reads.afterWord_none (bare .TOP)).bind (list.bind ((Reads.orRecover _ _ source).bind ?_))
  refine rowsRead.bind ((Reads.afterWord_none noGroup).bind ?_)
  exact (Reads.afterWord_none noHaving).bind (.pure _ behind)

/-- The specification selects columns of a named table, and does nothing else. -/
inductive QuerySpec.IsSelection : QuerySpec → Prop
  | mk {items : List SelectItem} {table : TableRef} : items ≠ [] →
      (∀ item ∈ items, item.IsColumn) → table.IsNamed →
      IsSelection ⟨false, none, items, [table], none, [], none, [], none⟩

namespace QuerySpec.IsSelection

variable {spec : QuerySpec}

/-- The words of a selection: the columns, and the table behind them. -/
theorem words_mk (items : List SelectItem) (table : TableRef) :
    QuerySpec.words true ⟨false, none, items, [table], none, [], none, [], none⟩ =
      Keyword.SELECT.word :: (separated .comma (items.map (SelectItem.words true)) ++
        Keyword.FROM.word :: table.words true) := by
  simp [QuerySpec.words, SelectItem.wordsList_eq_map, TableRef.wordsList, separated, wordIf,
    clauseWords, listClauseWords, Expr.wordsOption, Expr.wordsList, SortKey.wordsList, offsetWords]

/-- The words of a selection can be written. -/
theorem spelled (h : spec.IsSelection) : ∀ word ∈ spec.words true, word.Spelled := by
  cases h with
  | @mk items table nonempty columns named =>
    rw [words_mk]
    have list : ∀ word ∈ separated .comma (items.map (SelectItem.words true)), word.Spelled :=
      spelled_separated rfl fun item mem => (columns item mem).spelled
    exact List.forall_mem_cons.mpr ⟨rfl, List.forall_mem_append.mpr
      ⟨list, List.forall_mem_cons.mpr ⟨rfl, named.spelled⟩⟩⟩

/-- A selection is read. -/
theorem reads (h : spec.IsSelection) (follows : firstKind behind ∈ afterTerm) :
    Reads (apply true (allowance + 6) .querySpec) (spec.words true ++ behind) spec behind := by
  cases h with
  | @mk items table nonempty columns named =>
    have ahead : ∀ kind ∈ afterTerm, kind ∈ afterReference ∧ kind ∈ afterTable ∧ kind ≠ .comma ∧
        kind ≠ .keyword .WHERE := by decide
    obtain ⟨ends, endsTable, noComma, noWhere⟩ := ahead _ follows
    have starts := firstKind_columns nonempty columns
      (Keyword.FROM.word :: (table.words true ++ behind))
    rw [words_mk, List.cons_append, List.append_assoc, List.cons_append]
    refine reads_querySpec (fun _ => firstKind_ne_of_isIdentifier starts rfl)
      (reads_selectList nonempty columns rfl) ?_ (.afterWord_none noWhere) follows
    exact reads_oneOrMore_singleton (reads_tableReference (named.reads endsTable) ends) noComma

end QuerySpec.IsSelection

end Adql
