import Adql.Proofs.Composition.Statements
import Adql.Proofs.Queries.SetOperations
import Adql.Proofs.Readable.Queries

/-!
# Readable trees are read

Here a query is put together of its body and its clauses.  In parentheses it is accepted as an operand.
If it starts with a word, it is told by the word.  If it starts with a parenthesis, an expression in
parentheses is tried first (`accepts_parenthesis_of_opens`): the query at its start is read as one, so
the trial succeeds if nothing stands behind that query, and it fails in front of the word with which
the query goes on.

The words of a readable tree are accepted (`Query.Readable.legible`).  This follows the tree: there is
a lemma for each way to build a tree of trees whose words are accepted.  So the text that is printed for
a readable query is parsed without diagnostics (`Query.Readable.parses`), whether or not the query is
what a parser yields.
-/

namespace Adql

open Adql.Parser Adql.Grammar

/-! ### Queries in parentheses -/

/-- The row begins with a query in parentheses; what there is more goes on with a query. -/
def Opens (row : List Word) : Prop :=
  ∃ inner : Query, inner.Legible ∧ ∃ tail, row = enclosed (inner.words true) ++ tail ∧
    (tail = [] ∨ firstKind tail ∈ afterOperand)

namespace Opens

variable {row more : List Word}

/-- More words may stand in the row if a query goes on with them. -/
theorem append (h : Opens row) (goesOn : more = [] ∨ firstKind more ∈ afterOperand) :
    Opens (row ++ more) := by
  obtain ⟨inner, legible, tail, rfl, ends⟩ := h
  refine ⟨inner, legible, tail ++ more, List.append_assoc _ _ _, ?_⟩
  rcases ends with rfl | ends
  · exact goesOn
  · obtain ⟨word, rest, rfl⟩ := List.exists_cons_of_ne_nil (l := tail) fun none => by
      rw [none] at ends
      exact absurd ends (by decide)
    exact .inr ends

/-- The row starts with a parenthesis. -/
theorem firstKind_append (h : Opens row) (behind : List Word) :
    firstKind (row ++ behind) = .leftParen := by
  obtain ⟨inner, _, tail, rfl, _⟩ := h
  rfl

end Opens

section

variable {words : List Word}
  (h : Accepts (apply true · .query) words (firstKind · ∈ afterQuery))

include h

/-- Up to a closing parenthesis, a query is read from its words. -/
theorem reads_query_of_accepts : ∃ query depth, ∀ allowance, depth ≤ allowance → ∀ behind,
    Reads (apply true allowance .query) (words ++ TokenKind.rightParen.word :: behind) query
      (TokenKind.rightParen.word :: behind) := by
  obtain ⟨query, depth, reads⟩ := h.reads
  exact ⟨query, depth, fun allowance enough behind =>
    reads allowance enough _ (show TokenKind.rightParen ∈ afterQuery by decide)⟩

/-- A query that starts with a word is accepted in parentheses. -/
theorem accepts_parenthesis_of_starts
    (starts : ∀ behind, startsQuery (firstKind (words ++ behind)) = true) :
    Accepts (fun allowance => parenthesis true (apply true allowance)) (enclosed words)
      Anywhere := by
  obtain ⟨query, depth, reads⟩ := reads_query_of_accepts h
  refine .of_reads (spelled_enclosed h.spelled) (.subquery query) (depth + 1) ?_
  intro allowance behind _
  rw [enclosed, List.cons_append, List.append_assoc, List.singleton_append]
  refine (Reads.nextKind _).bind ?_
  rw [secondKind_cons, if_pos (starts _)]
  exact reads_scalarSubquery rfl rfl (reads (allowance + depth) (by omega) behind)

/-- A query that starts with a parenthesis is accepted in parentheses. -/
theorem accepts_parenthesis_of_opens (opens : Opens words) :
    Accepts (fun allowance => parenthesis true (apply true allowance)) (enclosed words)
      Anywhere := by
  obtain ⟨query, depth, reads⟩ := reads_query_of_accepts h
  obtain ⟨inner, legible, tail, rfl, ends⟩ := opens
  obtain ⟨expr, depth', readsInner⟩ := legible.parenthesis.reads
  let front := enclosed (inner.words true)
  have shape (behind : List Word) : enclosed (front ++ tail) ++ behind =
      TokenKind.leftParen.word :: (front ++ (tail ++ TokenKind.rightParen.word :: behind)) := by
    simp [enclosed]
  have expression (allowance : Nat) (enough : depth' ≤ allowance) (behind : List Word) :
      Reads (apply true (allowance + 2) .expression)
        (front ++ (tail ++ TokenKind.rightParen.word :: behind)) expr
        (tail ++ TokenKind.rightParen.word :: behind) := by
    refine reads_expression_of_parenthesis rfl ?_ (readsInner allowance enough _ trivial)
    have operators : ∀ kind ∈ afterOperand, endsExpression kind = true := by decide
    rcases ends with rfl | goesOn
    · rfl
    · cases tail with
      | nil => exact absurd goesOn (by decide)
      | cons word rest => exact operators _ goesOn
  -- both readings of the outer parenthesis are tried
  have either {value : Expr} {allowance : Nat} {behind : List Word} (enough : depth ≤ allowance)
      (h : Reads (eitherParenthesis (apply true allowance))
        (enclosed (front ++ tail) ++ behind) value behind) :
      Reads (parenthesis true (apply true allowance)) (enclosed (front ++ tail) ++ behind) value
        behind := by
    have opens := (query_opens allowance _ [.eof]).of_reads (reads allowance enough behind) (.any _)
    rw [shape] at h ⊢
    rw [List.append_assoc] at opens
    refine (Reads.nextKind _).bind ?_
    rw [secondKind_cons, show firstKind (front ++ (tail ++ TokenKind.rightParen.word :: behind)) =
      .leftParen from rfl, if_neg (by decide)]
    refine (Reads.kindsAhead _).bind ?_
    rw [if_pos]
    · exact h
    · simpa [parenthesesOpenQuery, TokenKind.word] using opens
  rcases ends with rfl | goesOn
  · refine .of_reads (spelled_enclosed h.spelled) (.paren expr) (max depth depth' + 4) ?_
    intro allowance behind _
    have trial := expression (allowance + max depth depth') (by omega) behind
    refine either (by omega) (.firstOf_left (.apply ?_))
    rw [shape]
    exact reads_parenthesized rfl rfl trial
  · refine .of_reads (spelled_enclosed h.spelled) (.subquery query) (max depth depth' + 4) ?_
    intro allowance behind _
    have trial := expression (allowance + max depth depth') (by omega) behind
    have open' : firstKind (tail ++ TokenKind.rightParen.word :: behind) ≠ .rightParen := by
      have operators : ∀ kind ∈ afterOperand, kind ≠ .rightParen := by decide
      cases tail with
      | nil => exact absurd goesOn (by decide)
      | cons word rest => exact operators _ goesOn
    have whole := reads (allowance + max depth depth' + 2) (by omega) behind
    refine either (by omega) (.firstOf_right ?_ (.apply ?_))
    · rw [shape]
      exact (stalls_trial (stalls_parenthesized rfl trial open')).fails rfl
    · rw [enclosed, List.cons_append, List.append_assoc, List.singleton_append]
      exact reads_scalarSubquery rfl rfl whole

end

/-! ### Bodies -/

/-- Where they are not needed, there are no parentheses. -/
theorem enclosedIf_of_eq_false {needed : Bool} (h : needed = false) (words : List Word) :
    enclosedIf needed words = words := by
  rw [h]
  rfl

/-- The words of the body are read where rules may nest deep enough. -/
structure QueryBody.Legible (body : QueryBody) : Prop where
  /-- The words can be written. -/
  spelled : ∀ word ∈ body.words true, word.Spelled
  /-- The words are read as one and the same body. -/
  isRead : ∃ tree depth, ∀ allowance, depth ≤ allowance → body.IsRead tree allowance
  /-- A body that starts with a word starts with `SELECT`. -/
  starts : body.startsBare = true → ∀ behind,
    firstKind (body.words true ++ behind) = .keyword .SELECT
  /-- Any other body begins with a query in parentheses. -/
  opens : body.startsBare = false → Opens (body.words true)

namespace QueryBody.Legible

variable {body left right : QueryBody}

/-- A body starts with `SELECT` or a parenthesis. -/
theorem firstKind_append (h : body.Legible) (behind : List Word) :
    firstKind (body.words true ++ behind) ∈ [.keyword .SELECT, .leftParen] := by
  cases bare : body.startsBare with
  | true => exact h.starts bare behind ▸ List.mem_cons_self
  | false => exact (h.opens bare).firstKind_append behind ▸ List.mem_cons_of_mem _ List.mem_cons_self

/-- A body is accepted in front of what ends bodies. -/
theorem accepts (h : body.Legible) :
    Accepts (apply true · .queryBody) (body.words true) (firstKind · ∈ afterBody) := by
  obtain ⟨tree, depth, isRead⟩ := h.isRead
  exact .of_reads h.spelled tree (depth + 1) fun allowance behind ends =>
    (isRead (allowance + depth) (by omega)).queryBody ends

/-- A specification is a body. -/
theorem spec {spec : QuerySpec}
    (h : Accepts (apply true · .querySpec) (spec.words true) (firstKind · ∈ afterTerm)) :
    (QueryBody.spec spec).Legible := by
  have starts (behind : List Word) : firstKind (spec.words true ++ behind) = .keyword .SELECT := by
    cases spec
    rfl
  obtain ⟨tree, depth, reads⟩ := h.reads
  refine ⟨h.spelled, ⟨.spec tree, depth + 1, fun allowance enough => .of_term ?_⟩, fun _ => starts,
    nofun⟩
  intro behind follows
  obtain ⟨less, rfl⟩ : ∃ less, allowance = less + 1 := ⟨allowance - 1, by omega⟩
  have read := reads less (by omega) behind follows
  exact .apply ((Reads.check_true (starts behind)).bind (read.bind (.pure _ _)))

/-- A query in parentheses is a body. -/
theorem nested {query : Query} (h : query.Legible) : (QueryBody.nested query).Legible := by
  obtain ⟨value, depth, reads⟩ := reads_query_of_accepts h.accepts
  refine ⟨spelled_enclosed h.accepts.spelled, ⟨.nested value, depth + 1, fun allowance enough =>
    .of_term ?_⟩, nofun, fun _ => ⟨query, h, [], (List.append_nil _).symm, .inl rfl⟩⟩
  intro behind _
  obtain ⟨less, rfl⟩ : ∃ less, allowance = less + 1 := ⟨allowance - 1, by omega⟩
  rw [QueryBody.words, enclosed, List.cons_append, List.append_assoc, List.singleton_append]
  exact reads_nestedTerm rfl rfl (reads less (by omega) behind)

/-- A set operation is a body if its operands bind as tightly as they have to. -/
theorem setOperation {op : SetOperator} {all : Bool} (hleft : left.Legible)
    (bareLeft : left.looserThan op.level = false) (hright : right.Legible)
    (bareRight : right.looserThan (op.level + 1) = false) :
    (QueryBody.setOperation op all left right).Legible := by
  have words : QueryBody.words true (.setOperation op all left right) =
      left.words true ++ op.keyword.word :: (wordIf .ALL all ++ right.words true) := by
    rw [QueryBody.words, Bool.true_and, Bool.true_and, enclosedIf_of_eq_false bareLeft,
      enclosedIf_of_eq_false bareRight]
  obtain ⟨tree, depth, isLeft⟩ := hleft.isRead
  obtain ⟨tree', depth', isRight⟩ := hright.isRead
  refine ⟨?_, ⟨.setOperation op all tree tree', max depth depth', fun allowance enough => ?_⟩,
    fun bare behind => ?_, fun bare => ?_⟩
  · rw [words]
    exact List.forall_mem_append.mpr ⟨hleft.spelled, List.forall_mem_cons.mpr
      ⟨op.keyword.spelled_word, List.forall_mem_append.mpr
        ⟨spelled_wordIf .ALL all, hright.spelled⟩⟩⟩
  · have readLeft := isLeft allowance (by omega)
    have readRight := isRight allowance (by omega)
    have noAll : ∀ kind ∈ [TokenKind.keyword .SELECT, .leftParen], kind ≠ .keyword .ALL := by
      decide
    have other (behind : List Word) : firstKind (right.words true ++ behind) ≠ .keyword .ALL :=
      noAll _ (hright.firstKind_append behind)
    have unite (loosest : op.level = SetOperator.union.level) :
        (QueryBody.setOperation op all left right).IsRead (.setOperation op all tree tree')
          allowance := by
      rw [loosest] at bareRight
      refine .unite loosest readLeft ?_ ?_ <;> rw [enclosedIf_of_eq_false bareRight]
      · exact other
      · exact readRight.intersection bareRight
    cases op with
    | union | except => exact unite rfl
    | intersect =>
      refine .intersect ?_ ?_ ?_
      · rw [enclosedIf_of_eq_false bareLeft]
        exact readLeft.intersection bareLeft
      · rwa [enclosedIf_of_eq_false bareRight]
      · rw [enclosedIf_of_eq_false bareRight]
        exact readRight.term bareRight
  · rw [words, List.append_assoc]
    exact hleft.starts bare _
  · rw [words]
    have operator : TokenKind.keyword op.keyword ∈ afterOperand := by cases op <;> decide
    exact (hleft.opens bare).append (.inr operator)

end QueryBody.Legible

/-! ### Queries -/

/-- A query starts with a word if it has named queries or its body does. -/
theorem startsBare_assembleQuery (tables : List CommonTable) (body : QueryBody)
    (keys : List SortKey) (offset : Option UInt64) :
    (assembleQuery tables body keys offset).startsBare =
      (!tables.isEmpty || body.startsBare) := by
  cases body <;> rfl

section

variable {tables : List CommonTable} {body : QueryBody} {keys : List SortKey}
  {offset : Option UInt64} (plain : body.Plain)
  (htables : ∀ table ∈ tables, Accepts (apply true · .commonTable) (table.words true) Anywhere)
  (hbody : body.Legible) (hkeys : ∀ key ∈ keys, key.expr.Restored Expr.Anything)
  (hoffset : CountReadable offset)

include plain hbody

/-- A query starts with a word for queries if it starts with a word. -/
theorem startsQuery_assembleQuery
    (bare : (assembleQuery tables body keys offset).startsBare = true) (behind : List Word) :
    startsQuery (firstKind ((assembleQuery tables body keys offset).words true ++ behind)) =
      true := by
  rw [assembleQuery_words plain, List.append_assoc]
  cases tables with
  | cons table rest => rfl
  | nil =>
    rw [startsBare_assembleQuery] at bare
    rw [List.map_nil, listClauseWords, List.nil_append, List.append_assoc, hbody.starts bare]
    rfl

/-- A query that starts with no word begins with a query in parentheses. -/
theorem opens_assembleQuery
    (noWord : (assembleQuery tables body keys offset).startsBare = false) :
    Opens ((assembleQuery tables body keys offset).words true) := by
  rw [startsBare_assembleQuery, Bool.or_eq_false_iff] at noWord
  obtain ⟨noTables, bare⟩ := noWord
  cases tables with
  | cons table rest => cases noTables
  | nil =>
    rw [assembleQuery_words plain, List.map_nil, listClauseWords, List.nil_append]
    refine (hbody.opens bare).append ?_
    cases keys with
    | cons key rest => exact .inr (show TokenKind.keyword .ORDER ∈ afterOperand by decide)
    | nil =>
      cases offset with
      | none => exact .inl rfl
      | some count => exact .inr (show TokenKind.keyword .OFFSET ∈ afterOperand by decide)

include htables hkeys hoffset

/-- A query is accepted if its body and its clauses are. -/
theorem accepts_assembleQuery :
    Accepts (apply true · .query) ((assembleQuery tables body keys offset).words true)
      (firstKind · ∈ afterQuery) := by
  rw [assembleQuery_words plain]
  refine .apply (.bind (accepts_commonTables htables) (fun tables' => .bind hbody.accepts
    (fun body' => .bind (accepts_sortKeys hkeys) (fun keys' => (accepts_offset hoffset).bind_pure)
      ?_) ?_) ?_)
  · exact fun behind ends => firstKind_clauseWords _ _ ends
  · intro behind ends
    rw [List.append_assoc]
    exact firstKind_listClauseWords _ _ _ (firstKind_clauseWords _ _ ends)
  · intro behind _
    rw [List.append_assoc]
    exact hbody.firstKind_append _

/-- A query is accepted as a query and as an operand if its body and its clauses are accepted. -/
theorem Query.Legible.assembleQuery :
    (Grammar.assembleQuery tables body keys offset).Legible := by
  have accepts := accepts_assembleQuery plain htables hbody hkeys hoffset
  refine ⟨accepts, ?_, startsQuery_assembleQuery plain hbody⟩
  cases bare : (Grammar.assembleQuery tables body keys offset).startsBare with
  | true => exact accepts_parenthesis_of_starts accepts (startsQuery_assembleQuery plain hbody bare)
  | false => exact accepts_parenthesis_of_opens accepts (opens_assembleQuery plain hbody bare)

end

/-! ### Trees -/

/-- A readable body has its sort keys and its offset given away. -/
theorem QueryBody.Readable.plain {body : QueryBody} (h : body.Readable) : body.Plain := by
  rintro spec rfl
  cases h with
  | spec _ noKeys noOffset => exact ⟨noKeys, noOffset⟩

mutual

/-- A readable expression is read. -/
theorem Expr.Readable.restored : ∀ {expr : Expr}, expr.Readable → expr.Restored Expr.Anything
  | _, .literal value => .of_readable value
  | _, .column valid => .column valid
  | _, .binary left closed right => .binary left.restored right.restored closed
  | _, .unary operand => operand.restored.unary
  | _, .call valid plain arguments => .call valid plain fun argument mem =>
      (arguments argument mem).restored
  | _, .aggregate aggregates argument => .aggregate aggregates argument.restored
  | _, .countAll => .countAll
  | _, .geometry admits arguments => .geometry admits fun argument mem =>
      (arguments argument mem).restored
  | _, .isNull operand closed => .isNull operand.restored closed
  | _, .between operand closed low closedLow high =>
      .between operand.restored low.restored high.restored closed closedLow
  | _, .inList operand closed nonempty items => .inList operand.restored closed
      (fun item mem => (items item mem).restored) nonempty
  | _, .inQuery operand closed query bare => .inQuery operand.restored closed query.legible bare
  | _, .like operand closed pattern escape closedPattern =>
      .like operand.restored pattern.restored (fun text mem => (escape text mem).restored) closed
        fun _ mem => closedPattern (by rw [mem]; rfl)
  | _, .exists query => .exists query.legible
  | _, .subquery query => .subquery query.legible
  | _, .case subject nonempty conditions results otherwise =>
      .case (fun value mem => (subject value mem).restored) nonempty
        (Branch.forall_mem_exprs (fun branch mem => (conditions branch mem).restored)
          fun branch mem => (results branch mem).restored)
        fun value mem => (otherwise value mem).restored
  | _, .cast operand => operand.restored.cast
  | _, .paren inner => inner.restored.paren

/-- A readable item of a select list is read. -/
theorem SelectItem.Readable.legible : ∀ {item : SelectItem}, item.Readable → item.Legible
  | _, .wildcard nonempty valid => .wildcard nonempty valid
  | _, .value expr valid => .value expr.restored valid

/-- What matches the rows of a join is read if it is readable. -/
theorem JoinConstraint.Readable.legible :
    ∀ {free : Bool} {constraint : JoinConstraint}, constraint.Readable free → constraint.Legible free
  | _, _, .on condition => .on condition.restored
  | _, _, .using nonempty valid => .using nonempty valid
  | _, _, .none => .none

/-- A readable table is read. -/
theorem TableRef.Readable.legible : ∀ {table : TableRef}, table.Readable → table.Legible
  | _, .table valid validAlias => .named (.mk valid validAlias)
  | _, .subquery query valid => .subquery query.legible valid
  | _, .join left right product constraint =>
      .join left.legible right.legible product constraint.legible
  | _, .nested inner => inner.legible.nested

/-- A readable specification is read. -/
theorem QuerySpec.Readable.accepts : ∀ {spec : QuerySpec}, spec.Readable → spec.keys = [] →
    spec.offset = none →
      Accepts (apply true · .querySpec) (spec.words true) (firstKind · ∈ afterTerm)
  | spec, .mk top nonempty items nonemptyTables tables rows groups having => by
      refine accepts_querySpec top ?_ nonemptyTables
        (fun table mem => (tables table mem).legible) (fun expr mem => (rows expr mem).restored)
        (fun expr mem => (groups expr mem).restored) fun expr mem => (having expr mem).restored
      by_cases everything : spec.items = [.unnamed (.wildcard [])]
      · rw [everything]
        exact .everything
      · exact .of_items nonempty fun item mem => (items everything item mem).legible

/-- A readable body is read. -/
theorem QueryBody.Readable.legible : ∀ {body : QueryBody}, body.Readable → body.Legible
  | _, .spec spec noKeys noOffset => .spec (spec.accepts noKeys noOffset)
  | _, .setOperation left bareLeft right bareRight =>
      .setOperation left.legible bareLeft right.legible bareRight
  | _, .nested query => .nested query.legible

/-- A readable named query is read. -/
theorem CommonTable.Readable.accepts : ∀ {table : CommonTable}, table.Readable →
    Accepts (apply true · .commonTable) (table.words true) Anywhere
  | _, .mk valid validColumns query => accepts_commonTable valid validColumns query.legible

/-- A readable query is read. -/
theorem Query.Readable.legible : ∀ {query : Query}, query.Readable → query.Legible
  | _, .mk tables body keys offset =>
      .assembleQuery body.plain (fun table mem => (tables table mem).accepts) body.legible
        (fun key mem => (keys key mem).restored) offset

end

/-- The printed text of a readable query is parsed without diagnostics. -/
theorem Query.Readable.parses {query : Query} (h : query.Readable) :
    ∃ tree, ParsesTo query.text tree := by
  have accepts := h.legible.accepts
  obtain ⟨tree, depth, reads⟩ := accepts.reads
  obtain ⟨tokens, cut, written⟩ := query.prints.tokenize accepts.spelled
  have read : Reads (apply true depth .query) (query.words true ++ []) tree [] :=
    reads depth (Nat.le_refl depth) [] (show TokenKind.eof ∈ afterQuery by decide)
  rw [List.append_nil] at read
  exact ⟨tree, .of_reads cut written read (.inl rfl)⟩

end Adql
