import Adql.Proofs.Decimal.Written
import Adql.Proofs.Readable.ParsedExpressions
import Adql.Proofs.Readable.Reading

/-!
# What is read as a query is readable

The bodies of the rules for tables and queries yield readable trees, if the rules that they apply do.
So parsers of all rules do, by induction on how deep the rules may nest (`yields_trees`), and the tree
of a source that is parsed without diagnostics is readable (`readable_of_clean`).
-/

namespace Adql

open Adql.Decimal Adql.Parser Adql.Grammar

section

variable {apply : (rule : Rule) → Parser rule.Result} (trees : YieldsTrees apply)

include trees

/-! ### Tables -/

/-- What matches the rows of a join is readable. -/
theorem joinConstraint_readable (free : Bool) (words : List Word) :
    Ensures (joinConstraint apply free) words fun constraint _ => constraint.Readable free := by
  cases free with
  | true => exact .pure .none
  | false =>
    refine .eatWord_bind (fun _ inner _ _ => ?_) fun _ => .eatWord_bind (fun _ inner _ _ => ?_)
      fun _ => .fail
    · exact (expression_readable trees inner).bind fun _ _ readable => .pure (.on readable)
    · exact (nameList_valid inner).bind fun _ _ ⟨nonempty, valid⟩ => .pure (.using nonempty valid)

/-- A table with joins is readable. -/
theorem tableReference_readable (words : List Word) :
    Ensures (tableReference apply) words fun table _ => table.Readable := by
  refine (trees.yields .tablePrimary words trivial).bind fun first middle hfirst => ?_
  refine .iterate_shorter (I := fun table _ => table.Readable) (fun left words => ?_) hfirst
    fun left words hleft => ?_
  · refine (joinStep_kept trees.toKeepsRules left words).mono fun step rest h => ?_
    cases step with
    | more next => exact h.choose_spec.2.1
    | done final => trivial
  have joined (natural : Bool) (words : List Word) : Ensures (joinedTable apply left natural) words
      (AfterStep (fun table _ => table.Readable) fun table _ => table.Readable) := by
    refine (joinKind_ensures natural words).bind fun kind? middle found => ?_
    cases kind? with
    | none => exact .pure hleft
    | some kind =>
      refine (trees.yields .tablePrimary middle trivial).bind fun right middle' hright => ?_
      refine (joinConstraint_readable trees _ middle').bind fun constraint rest hconstraint => ?_
      exact .pure (TableRef.Readable.join hleft hright found.1 hconstraint)
  rw [joinStep_eq]
  exact .eatWord_bind (fun _ inner _ _ => joined true inner) fun _ => joined false words

/-- A query that stands for a table is readable. -/
theorem derivedTable_readable (words : List Word) :
    Ensures (derivedTable apply) words fun table _ => table.Readable :=
  (parenthesizedQuery_readable trees words).bind fun _ middle readable =>
    (aliasName_valid middle).bind fun _ _ valid => .pure (.subquery readable valid)

/-- Joins in parentheses are readable. -/
theorem nestedTable_readable (words : List Word) :
    Ensures (nestedTable apply) words fun table _ => table.Readable :=
  .map (.expect_bind nofun fun _ inner _ _ => (trees.yields .tableReference inner trivial).bind
    fun _ _ readable => .expect_bind nofun fun _ _ _ _ => .pure (.nested readable))

/-- A name that may be missing is valid. -/
theorem optionalAlias_valid (words : List Word) :
    Ensures (optional (apply .aliasName)) words fun alias? _ => ∀ name ∈ alias?, name.Valid := by
  refine .optional ?_ (trees.settles _ _ rfl) fun _ => nofun
  refine (trees.yields .aliasName words trivial).mono ?_
  rintro name _ valid _ ⟨⟩
  exact valid

/-- A single table is readable. -/
theorem tablePrimary_readable (words : List Word) :
    Ensures (tablePrimary apply) words fun table _ => table.Readable := by
  refine .check_ite nofun (fun _ _ _ _ => ?_) fun _ => ?_
  · exact .firstOf (trees.yields .derivedTable words trivial) (trees.settles _ _ rfl)
      fun _ => trees.yields .nestedTable words trivial
  · exact (qualifiedName_valid words).bind fun _ middle valid =>
      (optionalAlias_valid trees middle).bind fun _ _ named => .pure (.table valid named)

/-! ### Select lists -/

omit trees in
/-- All columns of a table are a readable item. -/
theorem qualifiedWildcard_readable (words : List Word) :
    Ensures qualifiedWildcard words fun item _ => item.Readable := by
  refine (identifier_valid words).bind fun first inner ⟨valid, _⟩ => ?_
  refine .bind (P := fun state _ => state.1.toList ≠ [] ∧ ∀ name ∈ state.1.toList, name.Valid) ?_
    fun state rest ⟨nonempty, valid⟩ => .pure (.wildcard nonempty valid)
  refine .iterate_shorter (I := fun state _ => state.1.toList ≠ [] ∧
    ∀ name ∈ state.1.toList, name.Valid) (fun state words => ?_) ⟨?_, ?_⟩ ?_
  · refine (wildcardStep_kept state words).mono fun step rest h => ?_
    cases step with
    | more next => exact h.choose_spec.2.1
    | done final => trivial
  · exact List.cons_ne_nil _ _
  · exact List.forall_mem_singleton.mpr valid
  intro state words ⟨nonempty, held⟩
  refine .expect_bind nofun fun _ inner _ _ => .eat_bind nofun (fun _ _ _ _ => ?_) fun _ => ?_
  · exact .pure ⟨nonempty, held⟩
  · refine (identifier_valid inner).bind fun name rest ⟨valid, _⟩ => .pure ⟨?_, ?_⟩
    · simp
    · rw [Array.toList_push]
      exact List.forall_mem_append.mpr ⟨held, List.forall_mem_singleton.mpr valid⟩

/-- An expression with an optional name is a readable item. -/
theorem derivedColumn_readable (words : List Word) :
    Ensures (derivedColumn apply) words fun item _ => item.Readable :=
  (expression_readable trees words).bind fun _ middle readable =>
    (optionalAlias_valid trees middle).bind fun _ _ named => .pure (.value readable named)

/-- An item of a select list is readable. -/
theorem selectItem_readable (words : List Word) :
    Ensures (selectItem apply) words fun item _ => item.Readable := by
  refine .reads_bind (.currentKind words) (.reads_bind (.nextKind words) (.ite (fun _ => ?_) fun _ => ?_))
  · exact .firstOf (trees.yields .qualifiedWildcard words trivial) (trees.settles _ _ rfl)
      fun _ => trees.yields .derivedColumn words trivial
  · exact derivedColumn_readable trees words

/-- A select list is everything, or its items are readable. -/
theorem selectList_readable (words : List Word) :
    Ensures (selectList apply) words fun items _ => items ≠ [] ∧
      (items ≠ [.unnamed (.wildcard [])] → ∀ item ∈ items, item.Readable) := by
  refine .eat_bind nofun (fun _ _ _ _ => .pure ⟨List.cons_ne_nil _ _, fun other => absurd rfl other⟩)
    fun _ => .reads_bind (.canRecover words) ?_
  refine (Ensures.oneOrMore .comma nofun (trees.moves .selectItem)
    (fun words => trees.yields .selectItem words trivial) words).mono ?_
  exact fun _ _ ⟨nonempty, readable⟩ => ⟨nonempty, fun _ => readable⟩

/-! ### Specifications -/

/-- A condition that may be missing is readable. -/
theorem condition_readable (word : Keyword) (words : List Word) :
    Ensures (condition apply word) words fun condition? _ =>
      ∀ expr ∈ condition?, expr.Readable := by
  refine .afterWord (fun _ inner _ _ => ?_) fun _ => nofun
  refine .orRecover (.map ((expression_readable trees inner).mono ?_))
    (moving.rel_map some (trees.moves .expression))
  rintro expr _ readable _ ⟨⟩
  exact readable

/-- The items of a `FROM` clause are readable, and there are some. -/
theorem fromClause_readable (words : List Word) :
    Ensures (clause [] (fromClause apply)) words fun tables _ =>
      tables ≠ [] ∧ ∀ table ∈ tables, table.Readable := by
  have moves := moving.rel_oneOrMore .comma (trees.moves .tableReference)
  refine .orRecover (.expectWord_bind fun _ inner _ _ => ?_)
    (moving.rel_then (moving.rel_expectWord _) moves)
  exact .oneOrMore .comma nofun (trees.moves .tableReference)
    (fun words => trees.yields .tableReference words trivial) inner

/-- Grouping expressions are readable. -/
theorem groups_readable (words : List Word) :
    Ensures (afterWord .GROUP [] (clause [] (groups apply))) words fun exprs _ =>
      ∀ expr ∈ exprs, expr.Readable := by
  refine .afterWord (fun _ inner _ _ => ?_) fun _ => nofun
  have moves := moving.rel_oneOrMore .comma (trees.moves .expression)
  refine .orRecover (.expectWord_bind fun _ inner _ _ => ?_)
    (moving.rel_then (moving.rel_expectWord _) moves)
  exact (expressions_readable trees inner).mono fun _ _ known => known.2

omit trees in
/-- A number of rows that may be missing can be written and read. -/
theorem optionalCount_readable (words : List Word) :
    Ensures (some <$> rowCount) words fun count? _ => CountReadable count? :=
  .map (rowCount_readable words)

/-- A specification is readable. -/
theorem querySpec_readable (words : List Word) :
    Ensures (querySpec apply) words fun spec _ =>
      spec.Readable ∧ spec.keys = [] ∧ spec.offset = none := by
  refine .expectWord_bind fun _ inner _ _ => ?_
  refine (Ensures.of_nearby nearby.rel_distinctness inner).bind fun distinct middle _ => ?_
  refine .bind (P := fun top _ => CountReadable top)
    (.afterWord (fun _ inner _ _ => optionalCount_readable inner) fun _ => nofun) fun top middle htop => ?_
  refine (trees.yields .selectList middle trivial).bind fun items middle ⟨nonempty, hitems⟩ => ?_
  refine (fromClause_readable trees middle).bind fun tables middle ⟨present, htables⟩ => ?_
  refine (condition_readable trees .WHERE middle).bind fun rows middle hrows => ?_
  refine (groups_readable trees middle).bind fun groups middle hgroups => ?_
  refine (condition_readable trees .HAVING middle).bind fun having rest hhaving => .pure ?_
  exact ⟨.mk htop nonempty hitems present htables hrows hgroups hhaving, rfl, rfl⟩

/-! ### Query bodies -/

/-- An operand of a set operator is readable. -/
theorem queryTerm_readable (words : List Word) :
    Ensures (queryTerm apply) words (Rule.Yields .queryTerm words) := by
  refine .check_ite nofun (fun _ _ _ _ => ?_) fun missed => .eat_bind nofun (fun _ inner split opening => ?_)
    fun _ => .fail
  · exact (trees.yields .querySpec words trivial).bind fun spec rest ⟨readable, noKeys, noOffset⟩ =>
      .pure ⟨.spec readable noKeys noOffset, fun _ => rfl, fun _ => rfl⟩
  · refine (trees.yields .query inner trivial).bind fun query middle ⟨readable, _⟩ => ?_
    refine .expect_bind nofun fun _ rest _ _ => .pure ⟨.nested readable, fun bare => absurd bare missed,
      fun _ => rfl⟩

omit trees in
/-- A body that binds tighter than a level binds as tight. -/
theorem QueryBody.looserThan_of_succ {body : QueryBody} {level : Nat}
    (h : body.looserThan (level + 1) = false) : body.looserThan level = false := by
  cases body with
  | setOperation op =>
    have h := of_decide_eq_false h
    exact decide_eq_false (by omega)
  | _ => rfl

omit trees in
/-- Operands joined by set operators are readable, if each operand is and no tighter operator
follows it. -/
theorem setOperations_readable {operand : Parser QueryBody} (level : Nat)
    (moves : moving.rel Eq operand operand)
    (h : ∀ words, Ensures operand words fun body rest => body.Readable ∧
      (firstKind words = .keyword .SELECT → body.startsBare = true) ∧
      body.looserThan (level + 1) = false ∧
      ∀ op, setOperatorOf? (firstKind rest) = some op → op.level ≤ level) (words : List Word) :
    Ensures (setOperations operand level) words fun body rest => body.Readable ∧
      (firstKind words = .keyword .SELECT → body.startsBare = true) ∧
      body.looserThan level = false ∧
      ∀ op, setOperatorOf? (firstKind rest) = some op → op.level < level := by
  refine (h words).bind fun first middle ⟨readable, bare, tight, ends⟩ => ?_
  refine .iterate (I := fun body rest => body.Readable ∧
    (firstKind words = .keyword .SELECT → body.startsBare = true) ∧ body.looserThan level = false ∧
    ∀ op, setOperatorOf? (firstKind rest) = some op → op.level ≤ level)
    ⟨readable, bare, QueryBody.looserThan_of_succ tight, ends⟩ ?_
  intro left words' ⟨readable, bare, tight, ends⟩
  refine .reads_bind (reads_setOperator words') ?_
  cases hop : setOperatorOf? (firstKind words') with
  | none => exact .pure ⟨readable, bare, tight, by rw [hop]; nofun⟩
  | some op =>
    refine .ite (fun looser => .pure ⟨readable, bare, tight, ?_⟩) fun enough => ?_
    · rw [hop]
      rintro _ ⟨⟩
      exact looser
    have same : op.level = level := Nat.le_antisymm (ends op hop) (Nat.le_of_not_lt enough)
    obtain ⟨word, inner, rfl, -⟩ :=
      exists_cons_of_firstKind (by nofun) (setOperatorOf?_eq_some.mp hop)
    refine .advance_bind fun _ _ _ => ?_
    refine ((Ensures.of_nearby (nearby.rel_eat _) inner).length_le (moving.rel_eat _)).bind ?_
    intro all middle ⟨_, shorter⟩
    refine ((h middle).length_le moves).bind ?_
    intro right rest ⟨⟨readable', _, tight', ends'⟩, shorter'⟩
    refine .pure ⟨⟨.setOperation readable (same ▸ tight) readable' (same ▸ tight'), bare, ?_, ends'⟩, ?_⟩
    · exact decide_eq_false (Nat.not_lt_of_le (Nat.le_of_eq same.symm))
    · rw [List.length_cons]
      omega

/-- A query body is readable. -/
theorem queryBody_readable (words : List Word) :
    Ensures (queryBody apply) words (Rule.Yields .queryBody words) := by
  have moves := trees.moves .queryTerm
  have terms (words : List Word) := setOperations_readable SetOperator.intersect.level moves
    (fun words => (trees.yields .queryTerm words trivial).mono fun body rest known =>
      ⟨known.1, known.2.1, known.2.2 _, fun op _ => by cases op <;> decide⟩) words
  refine (setOperations_readable SetOperator.union.level (moving.rel_setOperations moves _)
    (fun words => (terms words).mono fun body rest known =>
      ⟨known.1, known.2.1, known.2.2.1, fun op found => ?_⟩) words).mono
    fun body rest known => ⟨known.1, known.2.1⟩
  exact Nat.le_of_lt_succ (known.2.2.2 op found)

/-! ### Queries -/

/-- A named query is readable. -/
theorem commonTable_readable (words : List Word) :
    Ensures (commonTable apply) words fun table _ => table.Readable := by
  have columns (words : List Word) : Ensures columnNames words fun columns _ =>
      ∀ column ∈ columns, column.Valid := by
    refine .eat_bind nofun (fun _ inner _ _ => ?_) fun _ => .pure (List.forall_mem_nil _)
    exact (identifiers_valid .comma nofun inner).bind fun _ _ known =>
      .expect_bind nofun fun _ _ _ _ => .pure known.2
  refine (identifier_valid words).bind fun name inner ⟨valid, _⟩ => ?_
  refine (columns inner).bind fun columns middle validColumns => .expectWord_bind fun _ inner _ _ => ?_
  exact (parenthesizedQuery_readable trees inner).bind fun query rest readable =>
    .pure (.mk valid validColumns readable)

/-- A sort key is readable. -/
theorem sortKey_readable (words : List Word) :
    Ensures (sortKey apply) words fun key _ => key.expr.Readable := by
  refine (expression_readable trees words).bind fun expr middle readable => ?_
  refine .eatWord_bind (fun _ _ _ _ => .pure readable) fun _ => ?_
  exact .eatWord_bind (fun _ _ _ _ => .pure readable) fun _ => .pure readable

/-- Sort keys that may be missing are readable. -/
theorem sortKeys_readable (words : List Word) :
    Ensures (afterWord .ORDER [] (clause [] (sortKeys apply))) words fun keys _ =>
      ∀ key ∈ keys, key.expr.Readable := by
  refine .afterWord (fun _ inner _ _ => ?_) fun _ => nofun
  have moves := moving.rel_oneOrMore .comma (trees.moves .sortKey)
  refine .orRecover (.expectWord_bind fun _ inner _ _ => ?_)
    (moving.rel_then (moving.rel_expectWord _) moves)
  exact (Ensures.oneOrMore .comma nofun (trees.moves .sortKey)
    (fun words => trees.yields .sortKey words trivial) inner).mono fun _ _ known => known.2

/-- A query is readable; if its first word starts a query, it starts with a word. -/
theorem query_readable (words : List Word) :
    Ensures (query apply) words (Rule.Yields .query words) := by
  have tables : Ensures (afterWord .WITH [] (oneOrMore .comma (apply .commonTable))) words
      fun tables rest => (∀ table ∈ tables, table.Readable) ∧
        (tables ≠ [] ∨ firstKind words ≠ .keyword .WITH ∧ rest = words) := by
    refine .afterWord (fun _ inner _ _ => ?_) fun missed => ⟨nofun, .inr ⟨missed, rfl⟩⟩
    exact (Ensures.oneOrMore .comma nofun (trees.moves .commonTable)
      (fun words => trees.yields .commonTable words trivial) inner).mono
      fun _ _ ⟨nonempty, readable⟩ => ⟨readable, .inl nonempty⟩
  have offset (words : List Word) :
      Ensures (afterWord .OFFSET none (clause none (some <$> rowCount))) words
        fun count? _ => CountReadable count? := by
    refine .afterWord (fun _ inner _ _ => ?_) fun _ => nofun
    exact .orRecover (optionalCount_readable inner) (moving.rel_map some moving.rel_rowCount)
  refine tables.bind fun tables middle ⟨htables, present⟩ => ?_
  refine (trees.yields .queryBody middle trivial).bind fun body middle' ⟨hbody, bare⟩ => ?_
  refine (sortKeys_readable trees middle').bind fun keys middle'' hkeys => ?_
  refine (offset middle'').bind fun offset rest hoffset => .pure ⟨.mk htables hbody hkeys hoffset, ?_⟩
  intro starts
  rw [startsBare_assembleQuery]
  rcases present with nonempty | ⟨noWith, rfl⟩
  · cases tables with
    | nil => exact absurd rfl nonempty
    | cons table tables => rfl
  · have select : firstKind middle = .keyword .SELECT := by
      unfold startsQuery at starts
      split at starts
      · next found => exact found
      · next found => exact absurd found noWith
      · cases starts
    rw [bare select, Bool.or_true]

/-! ### All rules -/

/-- The body of a rule yields a readable tree, if the rules that it applies do. -/
theorem body_yields (rule : Rule) (words : List Word) (called : rule.called words) :
    Ensures (body true apply rule) words (rule.Yields words) := by
  cases rule with
  | query => exact query_readable trees words
  | queryBody => exact queryBody_readable trees words
  | queryTerm => exact queryTerm_readable trees words
  | querySpec => exact querySpec_readable trees words
  | selectList => exact selectList_readable trees words
  | selectItem => exact selectItem_readable trees words
  | qualifiedWildcard => exact qualifiedWildcard_readable words
  | derivedColumn => exact derivedColumn_readable trees words
  | aliasName => exact aliasName_valid words
  | tableReference => exact tableReference_readable trees words
  | tablePrimary => exact tablePrimary_readable trees words
  | derivedTable => exact derivedTable_readable trees words
  | nestedTable => exact nestedTable_readable trees words
  | commonTable => exact commonTable_readable trees words
  | sortKey => exact sortKey_readable trees words
  | expression => exact (run_yields trees 0 words).mono fun _ _ known => known.1
  | operators level => exact operators_yields trees level words
  | parenthesized => exact parenthesizedExpression_yields trees words
  | parenthesizedTrial => exact trees.yields .parenthesized words trivial
  | scalarSubquery => exact scalarSubquery_yields trees words
  | subqueryTrial => exact trees.yields .scalarSubquery words trivial
  | «exists» => exact existence_yields trees words
  | aggregate => exact aggregate_yields trees called
  | functionCall => exact functionCall_yields trees called
  | geometry function => exact geometryCall_yields trees function words
  | case => exact caseDistinction_yields trees words
  | cast => exact conversion_yields trees words
  | dataType => exact (dataType_kept words).mono fun _ _ _ => trivial

end

/-- Parsers of all rules yield readable trees, however deep the rules may nest. -/
theorem yields_trees (allowance : Nat) : YieldsTrees (apply true allowance) := by
  induction allowance with
  | zero => exact ⟨keeps_rules 0, fun _ _ _ => .apply_zero⟩
  | succ allowance trees =>
    exact ⟨keeps_rules (allowance + 1), fun rule words called =>
      .apply_succ (body_yields trees rule words called)⟩

/-- Whatever real number a token is, its text is read as the same number. -/
theorem Token.rereads (token : Token) : token.Rereads := fun _ read =>
  readReal?_text .query (Option.filter_eq_some_iff.mp read).2

/-- The tree of a source that is parsed without diagnostics is readable. -/
theorem readable_of_clean {source : String} {tree : Query} {settings : Settings}
    (precedence : settings.precedence = .adql) (unbounded : settings.ruleBudget = none)
    (clean : parseText source settings = ⟨some tree, []⟩) : tree.Readable := by
  obtain ⟨tokens, words, rest, cut, written, _, reads, _⟩ :=
    reads_of_parse precedence unbounded clean
  obtain ⟨words', written', sound⟩ := Lexer.words_of_tokens cut fun token _ => token.rereads
  obtain rfl : words = words' := List.append_cancel_right (written.symm.trans written')
  have faces : (Session.ofTokens tokens settings).strict.Faces words settings.precedence :=
    Session.faces_ofTokens written sound rfl unbounded
  rw [precedence] at faces
  exact (((yields_trees settings.maxDepth).yields .query words trivial).of_reads reads ⟨_, faces⟩).1

end Adql
