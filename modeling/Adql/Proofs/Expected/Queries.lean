import Adql.Proofs.Expected.SelectLists
import Adql.Proofs.Expected.SetOperations
import Adql.Proofs.Expected.Tables
import Adql.Proofs.Expected.Types

/-!
# Queries and their clauses

What is looked for in a query really helps.  A clause may be missing, and where it is, what may follow
the query may follow.
-/

namespace Adql

open Adql.Parser Adql.Grammar

section

variable {size rank n : Nat} (h : HelpfulRules size rank n)

/-- No comma ends a query. -/
theorem comma_not_mem_queryEnds : .comma ∉ queryEnds := by
  intro found
  have listed : TokenKind.comma ∈ [TokenKind.rightParen, .eof] := found
  simp at listed

/-! ### Clauses -/

/-- A clause that may be missing, at the end of a query. -/
theorem ready_optionalClause {α : Type} {kind : TokenKind} {p : Parser α} {word : Keyword} {default : α}
    (ready : Ready (size - 1) {kind} queryEnds p) (moves : moving.rel Eq p p) :
    Ready size queryEnds queryEnds (afterWord word default (clause default p)) :=
  .afterWord (ready.orRecover moves) (keyword_not_mem_queryEnds word)

include h

/-- Items with commas between them, behind a word. -/
theorem ready_listed (rule : Rule) {word : Keyword} (noCall : rule.isCall = false)
    (follows : queryEnds ⊆ rule.follow) : Ready size {.keyword word} queryEnds (do
      expectWord word
      oneOrMore .comma (Grammar.apply true n rule)) :=
  .expectWord_bind (.oneOrMore rfl (h.nearby rule) (apply_moving true n rule)
    ((h.readyLater rule noCall).mono subset_rfl follows) comma_not_mem_queryEnds)

/-- A condition that may be missing. -/
theorem ready_condition (word : Keyword) :
    Ready size queryEnds queryEnds (condition (Grammar.apply true n) word) :=
  ready_optionalClause (.map ((h.readyLater .expression rfl).mono subset_rfl (queryEnds_subset 0)))
    (moving.rel_map some (apply_moving true n .expression))

/-- Grouping expressions that may be missing. -/
theorem ready_grouping : Ready size queryEnds queryEnds
    (afterWord .GROUP [] (clause [] (groups (Grammar.apply true n)))) := by
  have listed : Ready size {.keyword .BY} queryEnds (groups (Grammar.apply true n)) :=
    ready_listed h .expression rfl (queryEnds_subset 0)
  exact ready_optionalClause (listed.of_le (Nat.sub_le size 1)) (moving.rel_then (moving.rel_expectWord _)
    (ParserRelation.rel_expressions fun rule => apply_moving true n rule))

/-- Sort keys that may be missing. -/
theorem ready_ordering : Ready size queryEnds queryEnds
    (afterWord .ORDER [] (clause [] (sortKeys (Grammar.apply true n)))) := by
  have listed : Ready size {.keyword .BY} queryEnds (sortKeys (Grammar.apply true n)) :=
    ready_listed h .sortKey rfl subset_rfl
  exact ready_optionalClause (listed.of_le (Nat.sub_le size 1)) (moving.rel_then (moving.rel_expectWord _)
    (moving.rel_oneOrMore _ (apply_moving true n .sortKey)))

omit h in
/-- A number of rows to be skipped, which may be missing. -/
theorem ready_offset : Ready size queryEnds queryEnds
    (afterWord .OFFSET none (clause none (some <$> rowCount))) :=
  ready_optionalClause ready_rowCount.map (moving.rel_map some moving.rel_rowCount)

/-! ### Specifications -/

omit h in
/-- Whether repeated rows are left out. -/
theorem ready_distinctness : Ready size {.star} {.star} distinctness :=
  .eat_missed rfl (.pure subset_rfl _) (.eat_missed rfl (.pure subset_rfl _) (.pure subset_rfl _) nofun)
    nofun

/-- A specification. -/
theorem ready_querySpec : Ready size {.keyword .SELECT} queryEnds (querySpec (Grammar.apply true n)) := by
  have less : size - 1 ≤ size := Nat.sub_le _ 1
  have top : Ready (size - 1) {.star} {.star} (afterWord .TOP none (some <$> rowCount)) :=
    .afterWord ready_rowCount.map nofun
  have items : Ready (size - 1) {.star} {.keyword .FROM} (Grammar.apply true n .selectList) :=
    h.readyLater .selectList rfl
  have listed : Ready size {.keyword .FROM} queryEnds (fromClause (Grammar.apply true n)) :=
    ready_listed h .tableReference rfl subset_rfl
  have tables : Ready size {.keyword .FROM} queryEnds (clause [] (fromClause (Grammar.apply true n))) :=
    listed.orRecover (moving.rel_then (moving.rel_expectWord _)
      (moving.rel_oneOrMore _ (apply_moving true n .tableReference)))
  exact .expectWord_bind (ready_distinctness.bind fun _ => top.bind fun _ => items.bind fun _ =>
    (tables.of_le less).bind fun _ => ((ready_condition h .WHERE).of_le less).bind fun _ =>
      ((ready_grouping h).of_le less).bind fun _ => ((ready_condition h .HAVING).of_le less).bind fun _ =>
        .pure subset_rfl _)

/-! ### Queries -/

/-- A sort key. -/
theorem helpful_sortKey (ranks : 4 < rank) :
    Helpful size queryEnds (sortKey (Grammar.apply true n)) := by
  have order (expr : Expr) : Ready size queryEnds queryEnds (do
      if ← eatWord .DESC then
        pure (SortKey.mk expr .descending)
      else
        let _ ← eatWord .ASC
        pure (SortKey.mk expr .ascending)) :=
    .eat_missed rfl (.pure subset_rfl _) (.eat_missed rfl (.pure subset_rfl _) (.pure subset_rfl _)
      (keyword_not_mem_queryEnds _)) (keyword_not_mem_queryEnds _)
  exact (((h.here .expression ranks).helpful rfl).mono (queryEnds_subset 0)).bind order

/-- A named query. -/
theorem ready_commonTable {F : Set TokenKind} :
    Ready size {.identifier} F (commonTable (Grammar.apply true n)) := by
  have names : Ready (size - 1) {.identifier} {.rightParen} (oneOrMore .comma identifier) :=
    .oneOrMore rfl nearby.rel_identifier moving.rel_identifier .identifier nofun
  have columns : Ready size {.keyword .AS} {.keyword .AS} columnNames :=
    .eat_missed rfl (names.bind fun _ => .expect_bind rfl (.done _)) (.pure subset_rfl _) nofun
  have query : Ready size {.leftParen} F (parenthesizedQuery (Grammar.apply true n)) :=
    ready_parenthesizedQuery h
  exact Ready.identifier.bind fun _ => columns.bind fun _ =>
    .expectWord_bind ((query.of_le (Nat.sub_le _ 1)).bind fun _ => .pure subset_rfl _)

/-- A query. -/
theorem helpful_query (ranks : 3 < rank) :
    Helpful size queryEnds (query (Grammar.apply true n)) := by
  have table : Ready (size - 1) {.identifier} {.keyword .SELECT} (Grammar.apply true n .commonTable) :=
    (h.readyLater .commonTable rfl).mono subset_rfl (Set.subset_univ _)
  have tables : Ready (size - 1) {.identifier} {.keyword .SELECT}
      (oneOrMore .comma (Grammar.apply true n .commonTable)) :=
    .oneOrMore rfl (h.nearby .commonTable) (apply_moving true n .commonTable) table nofun
  have body : Ready size {.keyword .SELECT} queryEnds (Grammar.apply true n .queryBody) :=
    h.ready .queryBody ranks rfl
  have named : Helpful size {.keyword .SELECT}
      (afterWord .WITH [] (oneOrMore .comma (Grammar.apply true n .commonTable))) := .afterWord tables
  exact named.bind fun _ => body.bind fun _ => (ready_ordering h).bind fun _ => ready_offset.bind fun _ =>
    .pure subset_rfl _

end

end Adql
