import Adql.Proofs.Readable.Clauses

/-!
# Clauses and specifications are read

Every clause of a query is accepted if its parts are: in front of the word of a later clause, or of
what ends the query.  So a specification is accepted clause by clause, and a named query with its name.
-/

namespace Adql

open Adql.Parser Adql.Grammar

/-! ### Clauses -/

/-- A condition that may be missing is accepted. -/
theorem accepts_condition {condition? : Option Expr} (word : Keyword)
    (h : ∀ expr ∈ condition?, expr.Restored Expr.Anything) :
    Accepts (fun allowance => condition (apply true allowance) word)
      (clauseWords word (Expr.wordsOption true condition?))
      (fun behind => endsExpression (firstKind behind) = true ∧
        firstKind behind ≠ .keyword word) := by
  cases condition? with
  | none => exact .afterWord_missed fun _ ends => ends.2
  | some expr =>
    exact .follow (.afterWord (.orRecover ((h expr rfl).accepts.map some))) fun _ ends => ends.1

/-- Grouping expressions that may be missing are accepted. -/
theorem accepts_groups {exprs : List Expr} (h : ∀ expr ∈ exprs, expr.Restored Expr.Anything) :
    Accepts (fun allowance => afterWord .GROUP [] (clause [] (groups (apply true allowance))))
      (listClauseWords [Keyword.GROUP.word, Keyword.BY.word] (Expr.wordsList true exprs))
      (fun behind => endsExpression (firstKind behind) = true ∧ firstKind behind ≠ .comma ∧
        firstKind behind ≠ .keyword .GROUP) := by
  cases exprs with
  | nil => exact .afterWord_missed fun _ ends => ends.2.2
  | cons expr rest =>
    have list := accepts_expressions h (List.cons_ne_nil expr rest)
    exact .follow (.afterWord (.orRecover (.expectWord list))) fun _ ends => ⟨ends.1, ends.2.1⟩

/-- The word that asks for different rows, which may be missing, is accepted. -/
theorem accepts_distinctness (distinct : Bool) :
    Accepts (fun _ => distinctness) (wordIf .DISTINCT distinct)
      (fun behind => firstKind behind ≠ .keyword .DISTINCT ∧
        firstKind behind ≠ .keyword .ALL) := by
  refine .of_reads (spelled_wordIf _ _) distinct 0 fun _ behind ends => ?_
  cases distinct with
  | false => exact (Reads.eat_false ends.1).bind ((Reads.eat_false ends.2).bind (.pure _ _))
  | true => exact (Reads.eat_true rfl).bind (.pure _ _)

/-- A number of rows is accepted. -/
theorem accepts_rowCount {count : UInt64} (spelled : (countWord count.toNat).Spelled)
    (again : (countWord count.toNat).token.rowCount? = some count) :
    Accepts (fun _ => rowCount) [countWord count.toNat] Anywhere :=
  .of_reads (List.forall_mem_singleton.mpr spelled) count 0 fun _ behind _ =>
    reads_rowCount rfl again behind

/-- The number of rows to keep, which may be missing, is accepted. -/
theorem accepts_top {top : Option UInt64} (h : CountReadable top) :
    Accepts (fun _ => afterWord .TOP none (some <$> rowCount))
      (clauseWords .TOP (top.map fun count => [countWord count.toNat]))
      (firstKind · ≠ .keyword .TOP) := by
  cases top with
  | none => exact .afterWord_missed fun _ ends => ends
  | some count =>
    obtain ⟨spelled, again⟩ := h count rfl
    exact .follow (.afterWord ((accepts_rowCount spelled again).map some)) fun _ _ => trivial

/-- The number of rows to skip, which may be missing, is accepted. -/
theorem accepts_offset {offset : Option UInt64} (h : CountReadable offset) :
    Accepts (fun _ => afterWord .OFFSET none (clause none (some <$> rowCount)))
      (offsetWords offset) (firstKind · ∈ afterQuery) := by
  have ahead : ∀ kind ∈ afterQuery, kind ≠ .keyword .OFFSET := by decide
  cases offset with
  | none => exact .afterWord_missed fun _ ends => ahead _ ends
  | some count =>
    obtain ⟨spelled, again⟩ := h count rfl
    exact .follow (.afterWord (.orRecover ((accepts_rowCount spelled again).map some)))
      fun _ _ => trivial

/-! ### Sort keys -/

/-- A sort key is accepted. -/
theorem accepts_sortKey {key : SortKey} (h : key.expr.Restored Expr.Anything) :
    Accepts (apply true · .sortKey) (key.words true)
      (firstKind · ∈ [.comma, .keyword .OFFSET] ++ afterQuery) := by
  obtain ⟨expr, direction⟩ := key
  have ahead : ∀ kind ∈ [.comma, .keyword .OFFSET] ++ afterQuery, kind ≠ .keyword .DESC ∧
      kind ≠ .keyword .ASC ∧ endsExpression kind = true := by decide
  have last (expr' : Expr) : Accepts (fun _ => do
        if ← eatWord .DESC then pure ⟨expr', .descending⟩
        else
          let _ ← eatWord .ASC
          pure (⟨expr', .ascending⟩ : SortKey)) (wordIf .DESC (direction = .descending))
      (firstKind · ∈ [.comma, .keyword .OFFSET] ++ afterQuery) := by
    refine .of_reads (spelled_wordIf _ _) ⟨expr', direction⟩ 0 fun _ behind follows => ?_
    obtain ⟨noDesc, noAsc, _⟩ := ahead _ follows
    cases direction with
    | ascending => exact (Reads.eat_false noDesc).bind ((Reads.eat_false noAsc).bind (.pure _ _))
    | descending => exact (Reads.eat_true rfl).bind (.pure _ _)
  refine .apply (Accepts.bind h.accepts last fun behind follows => ?_)
  cases direction with
  | ascending => exact (ahead _ follows).2.2
  | descending => rfl

/-- Sort keys that may be missing are accepted. -/
theorem accepts_sortKeys {keys : List SortKey}
    (h : ∀ key ∈ keys, key.expr.Restored Expr.Anything) :
    Accepts (fun allowance => afterWord .ORDER [] (clause [] (sortKeys (apply true allowance))))
      (listClauseWords [Keyword.ORDER.word, Keyword.BY.word] (keys.map (SortKey.words true)))
      (firstKind · ∈ .keyword .OFFSET :: afterQuery) := by
  have ahead : ∀ kind ∈ .keyword .OFFSET :: afterQuery, kind ≠ .keyword .ORDER ∧
      kind ∈ [.comma, .keyword .OFFSET] ++ afterQuery ∧ kind ≠ .comma := by decide
  cases keys with
  | nil => exact .afterWord_missed fun behind follows => (ahead _ follows).1
  | cons key rest =>
    have list : Accepts (fun allowance => oneOrMore .comma (apply true allowance .sortKey))
        (separated .comma ((key :: rest).map (SortKey.words true)))
        (firstKind · ∈ .keyword .OFFSET :: afterQuery) :=
      .oneOrMore rfl (List.cons_ne_nil key rest) (fun other mem => accepts_sortKey (h other mem))
        (fun _ => show TokenKind.comma ∈ _ by decide) fun behind follows => (ahead _ follows).2
    exact .afterWord (.orRecover (.expectWord list))

/-! ### Specifications -/

/-- A specification without sort keys and offset is accepted. -/
theorem accepts_querySpec {spec : QuerySpec} (top : CountReadable spec.top)
    (items : SelectItem.LegibleList spec.items) (nonempty : spec.tables ≠ [])
    (tables : ∀ table ∈ spec.tables, table.Legible)
    (rows : ∀ expr ∈ spec.condition, expr.Restored Expr.Anything)
    (groups : ∀ expr ∈ spec.groups, expr.Restored Expr.Anything)
    (having : ∀ expr ∈ spec.having, expr.Restored Expr.Anything)
    (noKeys : spec.keys = []) (noOffset : spec.offset = none) :
    Accepts (apply true · .querySpec) (spec.words true) (firstKind · ∈ afterTerm) := by
  obtain ⟨distinct, top?, list, references, rows?, grouped, having?, keys, offset⟩ := spec
  dsimp only at *
  subst noKeys noOffset
  -- what stands behind the items of the `FROM` clause, the grouping expressions, and so on
  have afterTables : ∀ kind ∈ .keyword .WHERE :: .keyword .GROUP :: .keyword .HAVING :: afterTerm,
      kind ∈ afterReference ∧ kind ≠ .comma := by decide
  have afterRows : ∀ kind ∈ .keyword .GROUP :: .keyword .HAVING :: afterTerm,
      endsExpression kind = true ∧ kind ≠ .keyword .WHERE := by decide
  have afterGroups : ∀ kind ∈ .keyword .HAVING :: afterTerm,
      endsExpression kind = true ∧ kind ≠ .comma ∧ kind ≠ .keyword .GROUP := by decide
  have afterHaving : ∀ kind ∈ afterTerm,
      endsExpression kind = true ∧ kind ≠ .keyword .HAVING := by decide
  have source : Accepts (fun allowance => clause [] (fromClause (apply true allowance)))
      (Keyword.FROM.word :: separated .comma (TableRef.wordsList true references))
      (fun behind => firstKind behind ∈ afterReference ∧ firstKind behind ≠ .comma) :=
    .orRecover (.expectWord (accepts_tables nonempty tables))
  change Accepts (apply true · .querySpec) (Keyword.SELECT.word :: (wordIf .DISTINCT distinct ++
    (clauseWords .TOP (top?.map fun count => [countWord count.toNat]) ++
      (separated .comma (SelectItem.wordsList true list) ++
        ((Keyword.FROM.word :: separated .comma (TableRef.wordsList true references)) ++
          (clauseWords .WHERE (Expr.wordsOption true rows?) ++
            (listClauseWords [Keyword.GROUP.word, Keyword.BY.word] (Expr.wordsList true grouped) ++
              (clauseWords .HAVING (Expr.wordsOption true having?) ++ [])))))))) _
  refine .apply (.expectWord (.bind (accepts_distinctness distinct) (fun _ => .bind
    (accepts_top top) (fun _ => .bind items.accepts (fun _ => .bind source (fun _ => .bind
      (accepts_condition .WHERE rows) (fun _ => .bind (accepts_groups groups) (fun _ => .bind
        (accepts_condition .HAVING having) (fun _ => .pure _) ?_) ?_) ?_) ?_) ?_) ?_) ?_))
  · exact fun _ h => afterHaving _ h
  · intro behind h
    rw [List.append_nil]
    exact afterGroups _ (firstKind_clauseWords _ _ h)
  · intro behind h
    rw [List.append_nil, List.append_assoc]
    exact afterRows _ (firstKind_listClauseWords _ _ _ (firstKind_clauseWords _ _ h))
  · intro behind h
    rw [List.append_nil, List.append_assoc, List.append_assoc]
    exact afterTables _ (firstKind_clauseWords _ _
      (firstKind_listClauseWords _ _ _ (firstKind_clauseWords _ _ h)))
  · exact fun _ _ => rfl
  · intro behind _
    rw [List.append_assoc]
    exact items.bare .TOP (by decide) _
  · intro behind _
    cases top? with
    | some count => exact ⟨nofun, nofun⟩
    | none =>
      rw [Option.map_none, clauseWords, List.nil_append, List.append_assoc]
      exact ⟨items.bare .DISTINCT (by decide) _, items.bare .ALL (by decide) _⟩

/-! ### Named queries -/

/-- The names of the columns of a named query, if they are given, are accepted. -/
theorem accepts_columnNames {columns : List Identifier} (valid : ∀ column ∈ columns, column.Valid) :
    Accepts (fun _ => columnNames) (if columns.isEmpty then []
        else enclosed (separated .comma (columns.map fun column => [column.word])))
      (firstKind · ≠ .leftParen) := by
  cases columns with
  | nil =>
    exact .eat_missed (.pure []) fun _ ends => ends
  | cons column rest =>
    have names : Accepts (fun _ => oneOrMore .comma identifier)
        (separated .comma ((column :: rest).map fun column => [column.word]))
        (firstKind · ≠ .comma) :=
      .oneOrMore (F := Anywhere) rfl (List.cons_ne_nil column rest)
        (fun name mem => .identifier (valid name mem)) (fun _ => trivial)
        fun _ ends => ⟨trivial, ends⟩
    exact .eat (names.bind (fun _ => .expect (.pure _) rfl) fun _ _ => nofun) rfl

/-- A named query is accepted, whatever follows it. -/
theorem accepts_commonTable {table : CommonTable} (valid : table.name.Valid)
    (validColumns : ∀ column ∈ table.columns, column.Valid) (h : table.query.Legible) :
    Accepts (apply true · .commonTable) (table.words true) Anywhere := by
  obtain ⟨name, columns, query⟩ := table
  have tail (name' : Identifier) (columns' : List Identifier) :
      Accepts (fun allowance => do
        expectWord .AS
        let query ← parenthesizedQuery (apply true allowance)
        pure (CommonTable.mk name' columns' query))
        (Keyword.AS.word :: enclosed (query.words true)) Anywhere :=
    .expectWord h.parenthesized.bind_pure
  exact .apply (.bind (F := Anywhere) (.identifier valid) (fun name' => .bind
    (accepts_columnNames validColumns) (tail name') fun _ _ => nofun) fun _ _ => trivial)

/-- Named queries, which may be missing, are accepted in front of a body. -/
theorem accepts_commonTables {tables : List CommonTable}
    (h : ∀ table ∈ tables, Accepts (apply true · .commonTable) (table.words true) Anywhere) :
    Accepts (fun allowance =>
        afterWord .WITH [] (oneOrMore .comma (apply true allowance .commonTable)))
      (listClauseWords [Keyword.WITH.word] (tables.map (CommonTable.words true)))
      (firstKind · ∈ [.keyword .SELECT, .leftParen]) := by
  have ahead : ∀ kind ∈ [TokenKind.keyword .SELECT, .leftParen], kind ≠ .keyword .WITH ∧
      kind ≠ .comma := by decide
  cases tables with
  | nil => exact .afterWord_missed fun _ starts => (ahead _ starts).1
  | cons table rest =>
    have list : Accepts (fun allowance => oneOrMore .comma (apply true allowance .commonTable))
        (separated .comma ((table :: rest).map (CommonTable.words true)))
        (firstKind · ∈ [.keyword .SELECT, .leftParen]) :=
      .oneOrMore rfl (List.cons_ne_nil table rest) h (fun _ => trivial)
        fun _ starts => ⟨trivial, (ahead _ starts).2⟩
    exact .afterWord list

end Adql
