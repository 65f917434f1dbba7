import Adql.Proofs.Queries.Joins
import Adql.Proofs.Readable.Expressions

/-!
# Select lists and tables are read

The items of the two lists that a specification has to have.  An item of a select list is accepted if
its expression is restored, and all columns of a table are accepted if the names in front of the star
are valid; no expression is read as a wildcard.  A table is read as the beginning of a chain of joins
(`TableRef.IsRead`), as far as rules may nest: a join if its left table is, and a query in
parentheses because its name stands behind it, where no query goes on.
-/

namespace Adql

open Adql.Parser Adql.Grammar

/-- A name that may be missing is accepted where no name follows. -/
theorem accepts_optionalAlias {alias? : Option Identifier} (valid : ∀ name ∈ alias?, name.Valid) :
    Accepts (fun allowance => optional (apply true allowance .aliasName)) (aliasWords alias?)
      (fun behind => firstKind behind ≠ .keyword .AS ∧
        (firstKind behind).isIdentifier = false) :=
  .of_reads (spelled_aliasWords valid) alias? 1 fun _ _ ⟨other, noName⟩ =>
    reads_optionalAlias valid other noName

/-! ### Select lists -/

/-- The words of the item are accepted as an item of a select list. -/
structure SelectItem.Legible (item : SelectItem) : Prop where
  /-- The words are accepted in front of what ends items. -/
  accepts : Accepts (apply true · .selectItem) (item.words true) (firstKind · ∈ afterItem?)
  /-- The item starts as an operand does. -/
  starts : StartsOperand (item.words true)

namespace SelectItem.Legible

/-- An expression with a name that may be missing is accepted. -/
theorem accepts_derivedColumn {expr : Expr} {alias? : Option Identifier}
    (h : expr.Restored Expr.Anything) (valid : ∀ name ∈ alias?, name.Valid) :
    Accepts (fun allowance => derivedColumn (apply true allowance))
      (SelectItem.words true ⟨expr, alias?⟩) (firstKind · ∈ afterItem?) := by
  have ahead : ∀ kind ∈ afterItem?, (kind ≠ .keyword .AS ∧ kind.isIdentifier = false) ∧
      endsExpression kind = true := by decide
  have named : Accepts (fun allowance => optional (apply true allowance .aliasName))
      (aliasWords alias?) (firstKind · ∈ afterItem?) :=
    (accepts_optionalAlias valid).follow fun behind follows => (ahead _ follows).1
  refine h.accepts.bind (fun _ => named.bind_pure) fun behind follows => ?_
  rcases firstKind_aliasWords alias? behind with found | found
  · rw [found]
    rfl
  · rw [found]
    exact (ahead _ follows).2

/-- An expression is accepted as an item; it is no wildcard, even if it starts with a qualified
name. -/
theorem value {expr : Expr} {alias? : Option Identifier} (h : expr.Restored Expr.Anything)
    (valid : ∀ name ∈ alias?, name.Valid) : SelectItem.Legible ⟨expr, alias?⟩ := by
  have column := accepts_derivedColumn h valid
  obtain ⟨item, depth, reads⟩ := column.reads
  refine ⟨⟨column.spelled, item, depth + 2, ?_⟩, h.starts.append _⟩
  intro allowance enough behind follows
  obtain ⟨less, rfl⟩ : ∃ less, allowance = less + 2 := ⟨allowance - 2, by omega⟩
  refine .apply ((Reads.currentKind _).bind ((Reads.nextKind _).bind ?_))
  split
  · have column := reads less (by omega) behind follows
    exact .firstOf_right (qualifiedWildcard_fails column) (.apply column)
  · exact reads (less + 1) (by omega) behind follows

/-- The names of a qualifier behind its first one are read with their points. -/
theorem repeats_wildcardStep {others : List Identifier} (valid : ∀ name ∈ others, name.Valid)
    (names : Array Identifier) (behind : List Word) :
    Repeats .adql wildcardStep (names, false)
      ((others.flatMap fun name => [TokenKind.dot.word, name.word]) ++ behind)
      (names ++ others, false) behind := by
  induction others generalizing names with
  | nil => simpa using Repeats.refl (names, false) behind
  | cons name others ih =>
    obtain ⟨first, rest⟩ := List.forall_mem_cons.mp valid
    have noStar (words : List Word) : firstKind (name.word :: words) ≠ .star :=
      firstKind_ne_of_isIdentifier (isIdentifier_of_identifier? first.identifier?) rfl
    have step : Reads (wildcardStep (names, false)) (TokenKind.dot.word :: ([name.word] ++
        ((others.flatMap fun name => [TokenKind.dot.word, name.word]) ++ behind)))
        (.more (names.push name, false)) _ :=
      .expect_bind rfl ((Reads.eat_false (noStar _)).bind
        ((reads_identifier first.identifier? _).bind (.pure _ _)))
    have more := Repeats.word_cons step (ih rest (names.push name))
    simpa using more

/-- The words of a wildcard start with a name and a point. -/
theorem words_wildcard (first : Identifier) (others : List Identifier) :
    SelectItem.words true (.unnamed (.wildcard (first :: others))) =
      first.word :: ((others.flatMap fun name => [TokenKind.dot.word, name.word]) ++
        [TokenKind.dot.word, TokenKind.star.word]) := by
  rw [← qualifierWords_cons]
  exact List.append_nil _

/-- All columns of a table are read. -/
theorem reads_wildcard {first : Identifier} {others : List Identifier} (valid : first.Valid)
    (validOthers : ∀ name ∈ others, name.Valid) (behind : List Word) :
    Reads qualifiedWildcard
      (SelectItem.words true (.unnamed (.wildcard (first :: others))) ++ behind)
      (.unnamed (.wildcard (#[first] ++ others).toList)) behind := by
  have star : Reads (wildcardStep (#[first] ++ others, false))
      (TokenKind.dot.word :: TokenKind.star.word :: behind) (.done (#[first] ++ others, true))
      behind :=
    .expect_bind rfl ((Reads.eat_true rfl).bind (.pure _ _))
  rw [words_wildcard, List.cons_append, List.append_assoc]
  exact (reads_identifier valid.identifier? _).bind
    (((repeats_wildcardStep validOthers #[first] _).iterate star).bind (.pure _ _))

/-- All columns of a table are accepted as an item. -/
theorem wildcard {qualifier : List Identifier} (nonempty : qualifier ≠ [])
    (valid : ∀ name ∈ qualifier, name.Valid) :
    SelectItem.Legible (.unnamed (.wildcard qualifier)) := by
  obtain ⟨first, others, rfl⟩ := List.exists_cons_of_ne_nil nonempty
  obtain ⟨validFirst, validOthers⟩ := List.forall_mem_cons.mp valid
  have named := isIdentifier_of_identifier? validFirst.identifier?
  refine ⟨.of_reads ?_ (.unnamed (.wildcard (#[first] ++ others).toList)) 2 ?_, ?_⟩
  · rw [words_wildcard]
    refine List.forall_mem_cons.mpr ⟨validFirst.spelled, List.forall_mem_append.mpr ⟨?_, ?_⟩⟩
    · intro word hword
      obtain ⟨name, hname, hword⟩ := List.mem_flatMap.mp hword
      rcases List.mem_pair.mp hword with rfl | rfl
      · rfl
      · exact (validOthers name hname).spelled
    · exact List.forall_mem_cons.mpr ⟨rfl, List.forall_mem_singleton.mpr rfl⟩
  · intro allowance behind _
    have read : Reads (apply true (allowance + 1) .qualifiedWildcard) _ _ behind :=
      .apply (reads_wildcard validFirst validOthers behind)
    refine .apply ((Reads.currentKind _).bind ((Reads.nextKind _).bind ?_))
    rw [if_pos]
    · exact .firstOf_left read
    · rw [words_wildcard, Bool.and_eq_true, decide_eq_true_iff]
      refine ⟨named, ?_⟩
      cases others <;> rfl
  · rw [words_wildcard]
    exact .of_name named _

end SelectItem.Legible

/-- The words of the items are accepted as a select list. -/
structure SelectItem.LegibleList (items : List SelectItem) : Prop where
  /-- The words are accepted in front of the tables. -/
  accepts : Accepts (apply true · .selectList) (separated .comma (SelectItem.wordsList true items))
    (firstKind · = .keyword .FROM)
  /-- The list starts with no word that may stand in front of it. -/
  bare : ∀ keyword ∈ [Keyword.DISTINCT, .ALL, .TOP], ∀ behind,
    firstKind (separated .comma (SelectItem.wordsList true items) ++ behind) ≠ .keyword keyword

namespace SelectItem.LegibleList

/-- A lone star is accepted. -/
theorem everything : SelectItem.LegibleList [.unnamed (.wildcard [])] where
  accepts := .of_reads (List.forall_mem_singleton.mpr rfl) [.unnamed (.wildcard [])] 1
    fun _ _ _ => .apply ((Reads.eat_true rfl).bind (.pure _ _))
  bare _ _ _ := nofun

/-- Items that are accepted are accepted as a list. -/
theorem of_items {items : List SelectItem} (nonempty : items ≠ [])
    (h : ∀ item ∈ items, SelectItem.Legible item) : SelectItem.LegibleList items := by
  have starts : StartsOperand (separated .comma (SelectItem.wordsList true items)) := by
    obtain ⟨item, rest, rfl⟩ := List.exists_cons_of_ne_nil nonempty
    rw [SelectItem.wordsList, separated_cons]
    exact (h item List.mem_cons_self).starts.append _
  refine ⟨?_, ?_⟩
  · have list : Accepts (fun allowance => oneOrMore .comma (apply true allowance .selectItem))
        (separated .comma (SelectItem.wordsList true items)) (firstKind · = .keyword .FROM) := by
      rw [SelectItem.wordsList_eq_map]
      refine .oneOrMore rfl nonempty (fun item hitem => (h item hitem).accepts)
        (fun _ => show TokenKind.comma ∈ afterItem? by decide) fun behind ends => ?_
      rw [ends]
      exact ⟨by decide, by decide⟩
    obtain ⟨value, depth, reads⟩ := list.reads
    refine ⟨list.spelled, value, depth + 1, fun allowance enough behind ends => ?_⟩
    obtain ⟨less, rfl⟩ : ∃ less, allowance = less + 1 := ⟨allowance - 1, by omega⟩
    exact reads_selectList_of_items (starts.firstKind_ne _ (by decide))
      (reads less (by omega) behind ends)
  · intro keyword hkeyword behind
    refine starts.firstKind_ne behind ?_
    revert keyword
    decide

end SelectItem.LegibleList

/-! ### Joins -/

/-- The words of what matches the rows of a join are accepted; it is told whether the join needs
nothing that matches its rows. -/
def JoinConstraint.Legible (free : Bool) (constraint : JoinConstraint) : Prop :=
  Accepts (fun allowance => joinConstraint (apply true allowance) free) (constraint.words true)
    (firstKind · ∈ afterTable)

namespace JoinConstraint.Legible

/-- A condition is accepted. -/
theorem on {condition : Expr} (h : condition.Restored Expr.Anything) :
    Legible false (.on condition) := by
  have ends : ∀ kind ∈ afterTable, endsExpression kind = true := by decide
  have matched : Accepts (fun allowance => joinConstraint (apply true allowance) false)
      (Keyword.ON.word :: condition.words true)
      (fun behind => endsExpression (firstKind behind) = true) :=
    .eatWord h.accepts.bind_pure
  exact matched.follow fun behind follows => ends _ follows

/-- Names of columns are accepted. -/
theorem «using» {columns : List Identifier} (nonempty : columns ≠ [])
    (valid : ∀ name ∈ columns, name.Valid) : Legible false (.using columns) := by
  have names : Accepts (fun _ => nameList)
      (enclosed (separated .comma (columns.map fun column => [column.word])))
      (firstKind · ∈ afterTable) := by
    refine .of_reads (spelled_enclosed (spelled_separated rfl ?_)) columns 0 ?_
    · exact fun column hcolumn => List.forall_mem_singleton.mpr (valid column hcolumn).spelled
    · exact fun _ behind _ => reads_nameList nonempty valid behind
  exact .eat_missed (.eatWord names.bind_pure) fun _ _ => nofun

/-- Nothing needs to match the rows of products and natural joins. -/
theorem none : Legible true .none :=
  .pure _

end JoinConstraint.Legible

/-! ### Tables -/

/-- The words of the table are read where rules may nest deep enough. -/
structure TableRef.Legible (table : TableRef) : Prop where
  /-- The words can be written. -/
  spelled : ∀ word ∈ table.words true, word.Spelled
  /-- The words are read as one and the same table. -/
  isRead : ∃ tree depth, ∀ allowance, depth ≤ allowance → table.IsRead tree allowance

namespace TableRef.Legible

variable {left right inner : TableRef} {kind : JoinKind} {natural : Bool}
  {constraint : JoinConstraint}

/-- A table that is read is accepted. -/
theorem accepts {table : TableRef} (h : table.Legible) :
    Accepts (apply true · .tableReference) (table.words true) (firstKind · ∈ afterReference) := by
  obtain ⟨tree, depth, isRead⟩ := h.isRead
  refine ⟨h.spelled, tree, depth + 1, fun allowance enough behind ends => ?_⟩
  obtain ⟨less, rfl⟩ : ∃ less, allowance = less + 1 := ⟨allowance - 1, by omega⟩
  exact (isRead less (by omega)).tableReference ends

/-- A named table is read. -/
theorem named {table : TableRef} (h : table.IsNamed) : table.Legible := by
  refine ⟨h.spelled, table, 3, fun allowance enough => ?_⟩
  obtain ⟨less, rfl⟩ : ∃ less, allowance = less + 3 := ⟨allowance - 3, by omega⟩
  exact .of_primary (fun _ => h.reads) h.unclosed

/-- A query in parentheses is read as a table, for a name follows it. -/
theorem subquery {query : Query} {name : Identifier} (h : query.Legible) (valid : name.Valid) :
    (TableRef.subquery query name).Legible := by
  obtain ⟨value, depth, reads⟩ := h.accepts.reads
  refine ⟨List.forall_mem_append.mpr ⟨spelled_enclosed h.accepts.spelled, List.forall_mem_cons.mpr
    ⟨rfl, List.forall_mem_singleton.mpr valid.spelled⟩⟩, .subquery value name, depth + 3, ?_⟩
  intro allowance enough
  obtain ⟨less, rfl⟩ : ∃ less, allowance = less + 3 := ⟨allowance - 3, by omega⟩
  have shape (behind : List Word) : TableRef.words true (.subquery query name) ++ behind =
      TokenKind.leftParen.word :: (query.words true ++ TokenKind.rightParen.word ::
        Keyword.AS.word :: name.word :: behind) := by
    simp [TableRef.words, Adql.enclosed]
  have inside (allowance : Nat) (enough : depth ≤ allowance) (behind : List Word) :
      Reads (apply true allowance .query)
        (query.words true ++ TokenKind.rightParen.word :: behind) value
        (TokenKind.rightParen.word :: behind) :=
    reads allowance enough _ (show TokenKind.rightParen ∈ afterQuery by decide)
  refine .of_primary (fun behind _ => ?_) fun behind => ?_
  · rw [shape]
    have named : Reads aliasName (Keyword.AS.word :: name.word :: behind) name behind :=
      (Reads.eat_true rfl).bind (reads_identifier valid.identifier? behind)
    have query : Reads (parenthesizedQuery (apply true (less + 1)))
        (TokenKind.leftParen.word :: (query.words true ++ TokenKind.rightParen.word ::
          Keyword.AS.word :: name.word :: behind)) value (Keyword.AS.word :: name.word :: behind) :=
      .expect_bind rfl ((inside (less + 1) (by omega) _).bind (.expect_bind rfl (.pure _ _)))
    exact .apply ((Reads.check_true rfl).bind (.firstOf_left (.apply
      (query.bind (named.bind (.pure _ _))))))
  · rw [shape]
    have ends : firstKind (Keyword.AS.word :: name.word :: behind) ∉ afterOperand :=
      show TokenKind.keyword .AS ∉ afterOperand by decide
    exact .inr ⟨_, _, reads_nestedQuery rfl rfl ends (inside less (by omega) _),
      fun same => by cases same⟩

/-- Joins in parentheses are read. -/
theorem nested (h : inner.Legible) : (TableRef.nested inner).Legible := by
  obtain ⟨tree, depth, isRead⟩ := h.isRead
  refine ⟨spelled_enclosed h.spelled, .nested tree, depth + 3, fun allowance enough => ?_⟩
  obtain ⟨less, rfl⟩ : ∃ less, allowance = less + 3 := ⟨allowance - 3, by omega⟩
  exact (isRead less (by omega)).enclosed (isRead (less + 1) (by omega))

/-- The right table of a join is read, in parentheses if it is a join. -/
theorem enclosedIf (h : right.Legible) : ∃ tree depth, ∀ allowance, depth ≤ allowance →
    ∀ behind, firstKind behind ∈ afterTable → Reads (apply true allowance .tablePrimary)
      (enclosedIf right.isJoin (right.words true) ++ behind) tree behind := by
  cases needed : right.isJoin with
  | false =>
    obtain ⟨tree, depth, isRead⟩ := h.isRead
    exact ⟨tree, depth, fun allowance enough => (isRead allowance enough).primary needed⟩
  | true =>
    obtain ⟨tree, depth, isRead⟩ := h.nested.isRead
    exact ⟨tree, depth, fun allowance enough => (isRead allowance enough).primary rfl⟩

/-- A join is read if its tables are, and what matches their rows. -/
theorem join (hleft : left.Legible) (hright : right.Legible)
    (product : natural = true → kind ≠ .cross)
    (matched : constraint.Legible (natural || kind = .cross)) :
    (TableRef.join left kind natural right constraint).Legible := by
  obtain ⟨tree, depth, isRead⟩ := hleft.isRead
  obtain ⟨tree', depth', readsRight⟩ := hright.enclosedIf
  obtain ⟨constraint', depth'', readsMatched⟩ := matched.reads
  have kinds : ∀ word ∈ kind.words, word.Spelled := by
    cases kind <;> simp [JoinKind.words, Keyword.spelled_word]
  refine ⟨List.forall_mem_append.mpr ⟨hleft.spelled, List.forall_mem_append.mpr
    ⟨spelled_wordIf _ natural, List.forall_mem_append.mpr ⟨kinds, List.forall_mem_append.mpr
      ⟨spelled_enclosedIf _ hright.spelled, matched.spelled⟩⟩⟩⟩,
    .join tree kind natural tree' constraint', max depth (max depth' depth''), ?_⟩
  intro allowance enough
  exact (isRead allowance (by omega)).join product (readsRight allowance (by omega))
    (readsMatched allowance (by omega))

end TableRef.Legible

/-- Tables with commas between them are accepted. -/
theorem accepts_tables {tables : List TableRef} (nonempty : tables ≠ [])
    (h : ∀ table ∈ tables, table.Legible) :
    Accepts (fun allowance => oneOrMore .comma (apply true allowance .tableReference))
      (separated .comma (TableRef.wordsList true tables))
      (fun behind => firstKind behind ∈ afterReference ∧ firstKind behind ≠ .comma) := by
  rw [TableRef.wordsList_eq_map]
  exact .oneOrMore rfl nonempty (fun table htable => (h table htable).accepts)
    (fun _ => show TokenKind.comma ∈ afterReference by decide) fun _ ends => ends

end Adql
