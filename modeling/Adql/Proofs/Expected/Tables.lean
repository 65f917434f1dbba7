import Adql.Proofs.Expected.Definite
import Adql.Proofs.Expected.Rules
import Adql.Proofs.RoundTrip.Tables

/-!
# Tables and joins

What is looked for in a `FROM` clause really helps.  Which join comes next is told word by word, and
each of these words can be followed by the others, by a table and by what matches the rows
(`helpful_joinStep`).  A parenthesis starts a query or joins; it may start either of them.
-/

namespace Adql

open Adql.Parser Adql.Grammar

variable {α : Type}

/-! ### The words of a join -/

/-- An outer join behind its first word, and what follows it. -/
def outerThen (f : Option JoinKind → Parser α) (kind : JoinKind) : Parser α := do
  let _ ← eatWord .OUTER
  expectWord .JOIN
  f (some kind)

/-- A join that is no product, and what follows it. -/
def matchedThen (f : Option JoinKind → Parser α) (natural : Bool) : Parser α := do
  if ← eatWord .JOIN then f (some .inner)
  else if ← eatWord .INNER then
    expectWord .JOIN
    f (some .inner)
  else if ← eatWord .LEFT then outerThen f .left
  else if ← eatWord .RIGHT then outerThen f .right
  else if ← eatWord .FULL then outerThen f .full
  else if natural then fail
  else f none

/-- What follows a join that is no product is told word by word. -/
theorem matchedJoin?_bind_eq (f : Option JoinKind → Parser α) (natural : Bool) :
    matchedJoin? natural >>= f = matchedThen f natural := by
  unfold matchedJoin? matchedThen outerJoin? outerThen
  simp only [bind_assoc, ite_bind, pure_bind]
  rfl

/-- A join that is not natural may be a product. -/
theorem joinKind?_bind_eq (f : Option JoinKind → Parser α) :
    joinKind? false >>= f = (do
      if ← eatWord .CROSS then
        expectWord .JOIN
        f (some .cross)
      else matchedThen f false) := by
  rw [joinKind?_eq, ← matchedJoin?_bind_eq]
  simp only [bind_assoc, ite_bind, pure_bind]
  rfl

section

variable {F : Set TokenKind} {size : Nat} {f : Option JoinKind → Parser α}
  (found : ∀ kind, Ready (size - 1) {.identifier} F (f (some kind)))

include found

/-- What follows the word `JOIN`. -/
theorem ready_join (kind : JoinKind) :
    Ready (size - 1) {.keyword .JOIN} F (expectWord .JOIN >>= fun _ => f (some kind)) :=
  .expectWord_bind ((found kind).of_le (Nat.sub_le _ 1))

/-- What follows the first word of an outer join. -/
theorem ready_outerThen (kind : JoinKind) :
    Ready (size - 1) {.keyword .JOIN} F (outerThen f kind) :=
  .eat_missed rfl ((ready_join found kind).of_le (Nat.sub_le _ 1)) (ready_join found kind) nofun

/-- A join that is no product. -/
theorem ready_matchedThen (natural : Bool) (none : natural = false → Helpful size F (f none)) :
    Ready size {.keyword .JOIN} F (matchedThen f natural) := by
  have outer := ready_outerThen found
  have nothing : Helpful size F (if natural then fail else f Option.none) := by
    cases natural with
    | true => exact .fail
    | false => exact none rfl
  exact .eat_found rfl (found .inner) <| .eat_bind rfl (ready_join found .inner) <|
    .eat_bind rfl (outer .left) <| .eat_bind rfl (outer .right) <| .eat_bind rfl (outer .full)
      nothing

end

/-! ### Joins -/

section

variable (apply : (rule : Rule) → Parser rule.Result)

/-- What follows the words of a join, if there is one. -/
def joinTail (left : TableRef) (natural : Bool) : Option JoinKind → Parser (Step TableRef)
  | none => pure (.done left)
  | some kind => do
    let right ← apply .tablePrimary
    let constraint ← joinConstraint apply (natural || kind = .cross)
    pure (.more (.join left kind natural right constraint))

/-- A join is told by its words. -/
theorem joinedTable_eq (left : TableRef) (natural : Bool) :
    joinedTable apply left natural = joinKind? natural >>= joinTail apply left natural := by
  refine bind_congr fun kind? => ?_
  cases kind? with
  | none => rfl
  | some kind => rfl

end

section

variable {size rank n : Nat} (h : HelpfulRules size rank n)

include h

/-- What matches the rows of a join. -/
theorem ready_joinConstraint (free : Bool) : Ready (size - 1) (insert (.keyword .ON) queryEnds)
    queryEnds (joinConstraint (Grammar.apply true n) free) := by
  have less : size - 1 - 1 ≤ size - 1 := Nat.sub_le _ 1
  have condition : Ready (size - 1 - 1) {.identifier} queryEnds
      (Grammar.apply true n .expression >>= fun expr => pure (JoinConstraint.on expr)) :=
    ((h.readyLater .expression rfl).of_le less |>.mono subset_rfl (queryEnds_subset 0)).bind fun _ =>
      .pure subset_rfl _
  have columns : Ready (size - 1 - 1) {.leftParen} queryEnds
      (nameList >>= fun names => pure (JoinConstraint.using names)) :=
    ready_nameList.bind fun _ => .pure subset_rfl _
  unfold joinConstraint
  cases free with
  | true => exact .pure (Set.subset_insert _ _) _
  | false =>
    have on : Ready (size - 1) {.keyword .ON} queryEnds
        (joinConstraint (Grammar.apply true n) false) :=
      .eat_found rfl condition (.eat_bind rfl columns .fail)
    exact on.mono (Set.singleton_subset_iff.mpr (Set.mem_insert _ _)) subset_rfl

/-- What follows the words of a join. -/
theorem ready_joinTail (left : TableRef) (natural : Bool) (kind : JoinKind) : Ready (size - 1)
    {.identifier} queryEnds (joinTail (Grammar.apply true n) left natural (some kind)) :=
  (h.readyLater .tablePrimary rfl).bind fun _ => (ready_joinConstraint h _).bind fun _ =>
    .pure subset_rfl _

/-- One more join. -/
theorem helpful_joinStep (left : TableRef) :
    Helpful size queryEnds (joinStep (Grammar.apply true n) left) := by
  have natural : Ready (size - 1) {.keyword .JOIN} queryEnds
      (joinedTable (Grammar.apply true n) left true) := by
    rw [joinedTable_eq]
    have tail (kind : JoinKind) := (ready_joinTail h left true kind).of_le (Nat.sub_le _ 1)
    exact matchedJoin?_bind_eq _ true ▸ ready_matchedThen tail true nofun
  have plain : Helpful size queryEnds (joinedTable (Grammar.apply true n) left false) := by
    have tail := ready_joinTail h left false
    rw [joinedTable_eq, joinKind?_bind_eq]
    exact .eat_bind rfl (ready_join tail .cross)
      (ready_matchedThen tail false fun _ => .pure _).toHelpful
  rw [joinStep_eq]
  exact .eat_bind rfl natural plain

/-- A table with any number of joins. -/
theorem helpful_tableReference (ranks : 2 < rank) :
    Helpful size queryEnds (tableReference (Grammar.apply true n)) := by
  have closing : firstKind [TokenKind.rightParen.word] = .rightParen := rfl
  have table := (h.here .tablePrimary ranks).helpful rfl
  refine (table.mono (Set.subset_insert _ _)).bind fun first => .iterate
    (fun left => nearby.rel_joinStep h.nearby left)
    (fun _ _ _ _ => (apply_carries closing n).joinStep.shorter)
    (fun left behind follows => reads_joinStep_end left follows) (helpful_joinStep h) first

/-! ### Tables -/

/-- A query that stands for a table. -/
theorem ready_derivedTable {F : Set TokenKind} :
    Ready size {.leftParen} F (derivedTable (Grammar.apply true n)) :=
  (ready_parenthesizedQuery h).bind fun _ => ready_aliasName.bind fun _ => .pure subset_rfl _

/-- Joins in parentheses. -/
theorem ready_nestedTable {F : Set TokenKind} :
    Ready size {.leftParen} F (nestedTable (Grammar.apply true n)) :=
  .map (.inParentheses ((h.readyLater .tableReference rfl).mono subset_rfl
    (Set.singleton_subset_iff.mpr List.mem_cons_self)))

omit h in
/-- A table that has a name may have another one. -/
theorem ready_namedTable {n : Nat} (deep : 1 ≤ n) :
    Ready size {.identifier} (insert (.keyword .ON) queryEnds) (do
      let name ← qualifiedName
      let alias? ← optional (Grammar.apply true n .aliasName)
      pure (TableRef.table name alias?)) := by
  obtain ⟨less, rfl⟩ : ∃ less, n = less + 1 := ⟨n - 1, by omega⟩
  have listed : ∀ kind ∈ [TokenKind.keyword .ON, .rightParen, .eof],
      kind ≠ .dot ∧ kind ≠ .keyword .AS ∧ kind.isIdentifier = false := by decide
  have follows {kind : TokenKind} (found : kind ∈ insert (.keyword .ON) queryEnds) :
      kind ≠ .dot ∧ kind ≠ .keyword .AS ∧ kind.isIdentifier = false :=
    listed kind (found.elim (fun on => on ▸ List.mem_cons_self) (List.mem_cons_of_mem _))
  have name : Ready size (insert (.keyword .ON) queryEnds) (insert (.keyword .ON) queryEnds)
      (optional (Grammar.apply true (less + 1) .aliasName)) :=
    .optional rfl (definite_aliasName less) (.apply ready_aliasName.toHelpful) fun behind found =>
      stalls_aliasName (follows found).2.1 (follows found).2.2
  have noDot : .dot ∉ insert (.keyword .ON) queryEnds := fun found => (follows found).1 rfl
  exact (ready_qualifiedName noDot).bind fun _ => name.bind fun _ => .pure subset_rfl _

/-- A query or joins in parentheses. -/
theorem ready_parenthesizedTable {F : Set TokenKind} (ranks : 1 < rank) :
    Ready size {.leftParen} F (firstOf (Grammar.apply true n .derivedTable)
      (Grammar.apply true n .nestedTable)) := by
  have deep := h.deep
  obtain ⟨less, rfl⟩ : ∃ less, n = less + 1 := ⟨n - 1, by omega⟩
  have derived := (h.ready .derivedTable ranks rfl).mono subset_rfl (Set.subset_univ F)
  have nested := (h.ready .nestedTable ranks rfl).mono subset_rfl (Set.subset_univ F)
  obtain ⟨words, table, spelled, closing⟩ := derived.closes
  exact ⟨derived.toHelpful.firstOf rfl (definite_derivedTable less) nested.toHelpful, words, table,
    spelled, fun behind follows => (closing behind follows).imp id .firstOf_left⟩

/-- A table. -/
theorem helpful_tablePrimary (ranks : 1 < rank) :
    Helpful size (insert (.keyword .ON) queryEnds) (tablePrimary (Grammar.apply true n)) := by
  have deep := h.deep
  have stays := (beyond.rel_tablePrimary fun rule => apply_beyond n rule).2
  cases size with
  | zero => exact ⟨stays, fun front few => absurd few (Nat.not_lt_zero _)⟩
  | succ size =>
    obtain ⟨less, rfl⟩ : ∃ less, n = less + 2 := ⟨n - 2, by omega⟩
    have paren : Ready (size + 1) {.leftParen} (insert (.keyword .ON) queryEnds)
      (firstOf (Grammar.apply true (less + 2) .derivedTable)
        (Grammar.apply true (less + 2) .nestedTable)) := ready_parenthesizedTable h ranks
    have noEnd : TokenKind.leftParen ≠ .eof := nofun
    have differs : TokenKind.keyword .ON ≠ .leftParen := nofun
    have follows : .keyword .ON ∈ insert (.keyword .ON) queryEnds := Set.mem_insert _ _
    obtain ⟨outcome, honest⟩ := paren.honest [] (Nat.succ_pos size)
    refine .check_bind (fun word front _ few => paren.honest (word :: front) few) paren.beyond
      (paren.closes.offers differs follows) ?_ (ready_namedTable (by omega)).toHelpful
    refine honest.takes_of_stalls (fun words other => ?_) noEnd follows
    have derived : Stalls (Grammar.apply true (less + 2) .derivedTable) words :=
      .apply (.bind_left (.bind_left (.expect other)))
    have nested : Stalls (Grammar.apply true (less + 2) .nestedTable) words :=
      .apply (.bind_left (.bind_left (.expect other)))
    exact .firstOf (derived.fails rfl) nested

end

end Adql
