import Adql.Proofs.RoundTrip.SelectLists

/-!
# Queries are kept

The bodies of the rules for specifications, set operations and queries keep what they read, if the
rules that they apply do.
-/

namespace Adql

open Adql.Parser Adql.Grammar

/-! ### Rows of words -/

/-- The rows of words of select items, one for each. -/
theorem SelectItem.wordsList_eq_map (added : Bool) (items : List SelectItem) :
    SelectItem.wordsList added items = items.map (SelectItem.words added) := by
  induction items with
  | nil => rfl
  | cons item rest ih => rw [SelectItem.wordsList, ih, List.map_cons]

/-- The rows of words of tables, one for each. -/
theorem TableRef.wordsList_eq_map (added : Bool) (tables : List TableRef) :
    TableRef.wordsList added tables = tables.map (TableRef.words added) := by
  induction tables with
  | nil => rfl
  | cons table rest ih => rw [TableRef.wordsList, ih, List.map_cons]

/-- The rows of words of sort keys, one for each. -/
theorem SortKey.wordsList_eq_map (added : Bool) (keys : List SortKey) :
    SortKey.wordsList added keys = keys.map (SortKey.words added) := by
  induction keys with
  | nil => rfl
  | cons key rest ih => rw [SortKey.wordsList, ih, List.map_cons]

/-- The rows of words of named queries, one for each. -/
theorem CommonTable.wordsList_eq_map (added : Bool) (tables : List CommonTable) :
    CommonTable.wordsList added tables = tables.map (CommonTable.words added) := by
  induction tables with
  | nil => rfl
  | cons table rest ih => rw [CommonTable.wordsList, ih, List.map_cons]

/-- A clause that may be missing starts with its word, or what is behind it starts. -/
theorem firstKind_clauseWords {kinds : List TokenKind} {behind : List Word} (keyword : Keyword)
    (words? : Option (List Word)) (h : firstKind behind ∈ kinds) :
    firstKind (clauseWords keyword words? ++ behind) ∈ .keyword keyword :: kinds := by
  cases words? with
  | none => exact List.mem_cons_of_mem _ h
  | some words => exact List.mem_cons_self

/-- A clause with rows starts with its word if there are rows, or what is behind it starts. -/
theorem firstKind_listClauseWords {kinds : List TokenKind} {behind : List Word} (keyword : Keyword)
    (front : List Word) (rows : List (List Word)) (h : firstKind behind ∈ kinds) :
    firstKind (listClauseWords (keyword.word :: front) rows ++ behind) ∈
      .keyword keyword :: kinds := by
  cases rows with
  | nil => exact List.mem_cons_of_mem _ h
  | cons row rows => exact List.mem_cons_self

/-! ### Set operations -/

/-- The set operator of a kind of token. -/
def setOperatorOf? : TokenKind → Option SetOperator
  | .keyword .UNION => some .union
  | .keyword .EXCEPT => some .except
  | .keyword .INTERSECT => some .intersect
  | _ => none

/-- The set operator at the cursor is told by the first word. -/
theorem reads_setOperator (words : List Word) :
    Reads setOperator? words (setOperatorOf? (firstKind words)) words := by
  by_cases union : firstKind words = .keyword .UNION
  · rw [union]
    exact .bind (.check_true union) (.pure _ _)
  by_cases except : firstKind words = .keyword .EXCEPT
  · rw [except]
    exact .bind (.check_false union) (.bind (.check_true except) (.pure _ _))
  by_cases intersect : firstKind words = .keyword .INTERSECT
  · rw [intersect]
    exact .bind (.check_false union) (.bind (.check_false except) (.bind (.check_true intersect)
      (.pure _ _)))
  · have none : setOperatorOf? (firstKind words) = none := by
      unfold setOperatorOf?
      split
      · next h => exact absurd h union
      · next h => exact absurd h except
      · next h => exact absurd h intersect
      · rfl
    rw [none]
    exact .bind (.check_false union) (.bind (.check_false except) (.bind (.check_false intersect)
      (.pure _ _)))

/-- The word of a set operator denotes the operator. -/
theorem setOperatorOf?_eq_some {kind : TokenKind} {op : SetOperator} :
    setOperatorOf? kind = some op ↔ kind = .keyword op.keyword := by
  constructor
  · intro h
    unfold setOperatorOf? at h
    split at h <;> cases h <;> rfl
  · rintro rfl
    cases op <;> rfl

/-- What may stand behind operands that are joined by set operators of a level or above it: a set
operator only if it stood there in the source, or if it is looser. -/
def EndsSet (level : Nat) (rest behind : List Word) : Prop :=
  firstKind behind ∈ afterTerm ∧ ∀ op, setOperatorOf? (firstKind behind) = some op →
    setOperatorOf? (firstKind rest) = some op ∨ op.level < level

/-- The value is no specification with sort keys or an offset. -/
def QueryBody.Plain (body : QueryBody) : Prop :=
  ∀ spec, body = .spec spec → spec.keys = [] ∧ spec.offset = none

section

variable {operand : Parser QueryBody} {level : Nat} {F : List Word → List Word → Prop}

/-- Where no set operator of the level follows, none is read. -/
theorem reads_setStep_done (left : QueryBody) {behind : List Word}
    (looser : ∀ op, setOperatorOf? (firstKind behind) = some op → op.level < level) :
    Reads (setStep operand level left) behind (.done left) behind := by
  refine (reads_setOperator behind).bind ?_
  cases hop : setOperatorOf? (firstKind behind) with
  | none => exact .pure _ _
  | some op =>
    simp only [if_pos (looser op hop)]
    exact .pure _ _

/-- A set operator of the level is read with its right operand. -/
theorem reads_setStep {op : SetOperator} (tight : level ≤ op.level) (all : Bool)
    (left right : QueryBody) {words behind : List Word} (other : firstKind words ≠ .keyword .ALL)
    (h : Reads operand words right behind) :
    Reads (setStep operand level left) (op.keyword.word :: (wordIf .ALL all ++ words))
      (.more (.setOperation op all left right)) behind := by
  refine (reads_setOperator _).bind ?_
  rw [firstKind_cons, setOperatorOf?_eq_some.mpr (show op.keyword.word.kind = _ from rfl)]
  simp only [if_neg (Nat.not_lt_of_le tight)]
  refine Reads.advance_bind fun _ _ => ?_
  cases all with
  | true => exact (Reads.eat_true rfl).bind (h.bind (.pure _ _))
  | false => exact (Reads.eat_false other).bind (h.bind (.pure _ _))

/-- What stands behind the word of a set operator. -/
def setTail (operand : Parser QueryBody) (op : SetOperator) (left : QueryBody) :
    Parser (Step QueryBody) := do
  let all ← eatWord .ALL
  let right ← operand
  pure (.more (.setOperation op all left right))

/-- What stands behind the word of a set operator is kept. -/
theorem setTail_kept (op : SetOperator) (left : QueryBody) (words : List Word)
    (moves : moving.rel Eq operand operand)
    (hoperand : ∀ words, Ensures operand words fun body rest =>
      Kept operand (body.words false) (F rest) words body rest ∧ SameStart words (body.words false) ∧
        body.Plain) :
    Ensures (setTail operand op left) words fun step rest => ∃ all right,
      step = .more (.setOperation op all left right) ∧ rest.length ≤ words.length ∧
      Kept (setTail operand op left) (wordIf .ALL all ++ right.words false) (F rest) words step
        rest := by
  refine .eatWord_bind (fun word inner split hkind => ?_) fun _ => ?_
  · subst split
    refine ((hoperand inner).length_le moves).bind fun right rest ⟨⟨kept, _, _⟩, shorter⟩ => ?_
    exact .pure ⟨true, right, rfl, Nat.le_succ_of_le shorter, .eatWord kept.bind_pure hkind⟩
  · refine ((hoperand words).length_le moves).bind fun right rest ⟨⟨kept, start, _⟩, shorter⟩ => ?_
    exact .pure ⟨false, right, rfl, shorter, .eatWord_missed kept.bind_pure fun behind _ =>
      start.firstKind_ne behind (by decide)⟩

/-- One more set operator is kept with its right operand, or there is none. -/
theorem setStep_kept (left : QueryBody) (words : List Word)
    (next : ∀ (op : SetOperator) words behind, firstKind words = .keyword op.keyword →
      F words (op.keyword.word :: behind))
    (moves : moving.rel Eq operand operand)
    (hoperand : ∀ words, Ensures operand words fun body rest =>
      Kept operand (body.words false) (F rest) words body rest ∧ SameStart words (body.words false) ∧
        body.Plain) :
    Ensures (setStep operand level left) words (AfterStep
      (fun next rest => ∃ bare, bare ≠ [] ∧ rest.length < words.length ∧
        next.words false = left.words false ++ bare ∧ next.Plain ∧
        Kept (setStep operand level left) bare (F rest) words (.more next) rest ∧
        ∀ behind, F words (bare ++ behind) ∧ firstKind (bare ++ behind) ≠ .dot)
      (fun final rest => final = left ∧ rest = words ∧
        Kept (setStep operand level left) [] (EndsSet level words) words (.done left) words)) := by
  have stopped (h : ∀ op, setOperatorOf? (firstKind words) = some op → op.level < level) :
      Kept (setStep operand level left) [] (EndsSet level words) words (.done left) words :=
    ⟨fun _ h => absurd h List.not_mem_nil, by simp, fun behind hbehind =>
      reads_setStep_done left fun op hop => (hbehind.2 op hop).elim (h op) id⟩
  refine .reads_bind (reads_setOperator words) ?_
  cases hop : setOperatorOf? (firstKind words) with
  | none => exact .pure ⟨rfl, rfl, stopped (by rw [hop]; nofun)⟩
  | some op =>
    refine .ite (fun looser => .pure ⟨rfl, rfl, stopped ?_⟩) fun tight => ?_
    · rw [hop]
      rintro _ ⟨⟩
      exact looser
    · obtain ⟨word, inner, rfl, hkind⟩ :=
        exists_cons_of_firstKind (by nofun) (setOperatorOf?_eq_some.mp hop)
      refine .advance_bind fun _ _ _ => ?_
      refine (setTail_kept op left inner moves hoperand).mono ?_
      rintro _ rest ⟨all, right, rfl, shorter, kept⟩
      have plain : (QueryBody.setOperation op all left right).Plain := fun _ => nofun
      refine ⟨op.keyword.word :: (wordIf .ALL all ++ right.words false), List.cons_ne_nil _ _,
        Nat.lt_succ_of_le shorter, rfl, plain, ?_, fun behind => ⟨next op _ _ hkind, nofun⟩⟩
      · refine kept.cons hkind op.keyword.spelled_word fun behind _ hread => ?_
        refine (reads_setOperator _).bind ?_
        rw [firstKind_cons, show op.keyword.word.kind = word.kind from hkind.symm, ← firstKind_cons,
          hop]
        simp only [if_neg tight]
        exact Reads.advance_bind fun _ _ => hread

/-- Operands joined by set operators are kept. -/
theorem setOperations_kept (words : List Word)
    (next : ∀ (op : SetOperator) words behind, firstKind words = .keyword op.keyword →
      F words (op.keyword.word :: behind))
    (ends : ∀ rest behind, EndsSet level rest behind → F rest behind) (moves : moving.rel Eq operand operand)
    (hoperand : ∀ words, Ensures operand words fun body rest =>
      Kept operand (body.words false) (F rest) words body rest ∧ SameStart words (body.words false) ∧
        body.Plain) :
    Ensures (setOperations operand level) words fun body rest =>
      Kept (setOperations operand level) (body.words false) (EndsSet level rest) words body rest ∧
      SameStart words (body.words false) ∧ body.Plain := by
  refine (hoperand words).bind fun first middle ⟨keptFirst, start, plain⟩ => ?_
  have loop := Ensures.iterate_kept (setStep operand level) first middle (H := F)
    (D := EndsSet level)
    (P := fun body emitted => body.words false = first.words false ++ emitted ∧ body.Plain ∧
      firstKind emitted ≠ .dot)
    (Q := fun body emitted => body.words false = first.words false ++ emitted ∧ body.Plain ∧
      firstKind emitted ≠ .dot)
    ⟨(List.append_nil _).symm, plain, nofun⟩ fun left emitted words ⟨hemitted, plain, noDot⟩ => by
      refine (setStep_kept left words next moves hoperand).mono fun step rest hstep => ?_
      cases step with
      | more next =>
        obtain ⟨bare, nonempty, shorter, hwords, plain, kept, links⟩ := hstep
        refine ⟨bare, nonempty, shorter, ⟨?_, plain, ?_⟩, kept, fun behind _ => (links behind).1⟩
        · rw [hwords, hemitted, List.append_assoc]
        · cases emitted with
          | nil =>
            have first := (links []).2
            rwa [List.append_nil] at first
          | cons _ _ => exact noDot
      | done final =>
        obtain ⟨rfl, rfl, kept⟩ := hstep
        exact ⟨[], by rw [List.append_nil]; exact ⟨hemitted, plain, noDot⟩, kept, ends _⟩
  refine loop.mono fun body rest ⟨bare, ⟨hwords, plain, noDot⟩, kept, links⟩ => ?_
  rw [hwords]
  exact ⟨.bind keptFirst kept links, start.append noDot, plain⟩

end

section

variable {apply : (rule : Rule) → Parser rule.Result} (keeps : KeepsRules apply)

/-! ### Clauses -/

/-- The word that asks for different rows is kept; the word that does not is left out. -/
theorem distinctness_kept (words : List Word) :
    Ensures distinctness words fun distinct rest =>
      Kept distinctness (wordIf .DISTINCT distinct)
        (fun behind => firstKind behind ≠ .keyword .DISTINCT ∧ firstKind behind ≠ .keyword .ALL)
        words distinct rest := by
  have plain {words rest : List Word} (same : openings words = openings rest) :
      Kept distinctness [] (fun behind => firstKind behind ≠ .keyword .DISTINCT ∧
        firstKind behind ≠ .keyword .ALL) words false rest :=
    ⟨fun _ h => absurd h List.not_mem_nil, by simp [same],
      fun _ h => .bind (.eat_false h.1) (.bind (.eat_false h.2) (.pure _ _))⟩
  refine .eatWord_bind (fun word rest split hkind => .pure ?_) fun _ => ?_
  · subst split
    exact .eatWord (.pure _ rest) hkind
  · refine .eatWord_bind (fun word rest split hkind => .pure ?_) fun _ => .pure (plain rfl)
    subst split
    exact plain (by simp [hkind])

/-- The number of rows to keep is kept. -/
theorem top_kept (words : List Word) :
    Ensures (afterWord .TOP none (some <$> rowCount)) words fun top rest =>
      Kept (afterWord .TOP none (some <$> rowCount))
        (clauseWords .TOP (top.map fun count => [countWord count.toNat]))
        (fun behind => firstKind behind ≠ .keyword .TOP) words top rest := by
  refine .afterWord (fun word inner split hkind => ?_) fun _ => .afterWord_missed fun _ h => h
  subst split
  refine .map ((rowCount_kept inner).mono fun count rest kept => ?_)
  exact ((kept.map some).afterWord hkind).follow fun _ _ => trivial

/-- The number of rows to skip is kept. -/
theorem offset_kept (words : List Word) :
    Ensures (afterWord .OFFSET none (clause none (some <$> rowCount))) words fun offset rest =>
      Kept (afterWord .OFFSET none (clause none (some <$> rowCount))) (offsetWords offset)
        (fun behind => firstKind behind ∈ afterQuery) words offset rest := by
  refine .afterWord (fun word inner split hkind => ?_) fun _ => .afterWord_missed fun _ h => ?_
  · subst split
    refine .orRecover ?_ (moving.rel_map some moving.rel_rowCount)
    refine .map ((rowCount_kept inner).mono fun count rest kept => ?_)
    exact (Kept.afterWord (.orRecover (kept.map some)) hkind).follow fun _ _ => trivial
  · intro h'
    rw [h'] at h
    exact absurd h (by decide)

include keeps

/-- A condition that may be missing is kept. -/
theorem condition_kept (word : Keyword) (words : List Word) :
    Ensures (condition apply word) words fun condition? rest =>
      Kept (condition apply word) (clauseWords word (Expr.wordsOption false condition?))
        (fun behind => endsExpression (firstKind behind) = true ∧ firstKind behind ≠ .keyword word)
        words condition? rest := by
  refine .afterWord (fun word inner split hkind => ?_) fun _ => .afterWord_missed fun _ h => h.2
  subst split
  refine .orRecover ?_ (moving.rel_map some (keeps.moves .expression))
  refine .map ((expression_kept keeps inner).mono fun expr rest ⟨kept, _⟩ => ?_)
  exact (Kept.afterWord (.orRecover (kept.map some)) hkind).follow fun _ h => h.1

/-- Grouping expressions that may be missing are kept. -/
theorem groups_kept (words : List Word) :
    Ensures (afterWord .GROUP [] (clause [] (groups apply))) words fun exprs rest =>
      Kept (afterWord .GROUP [] (clause [] (groups apply)))
        (listClauseWords [Keyword.GROUP.word, Keyword.BY.word] (Expr.wordsList false exprs))
        (fun behind => endsExpression (firstKind behind) = true ∧ firstKind behind ≠ .comma ∧
          firstKind behind ≠ .keyword .GROUP) words exprs rest := by
  refine .afterWord (fun word inner split hkind => ?_) fun _ => .afterWord_missed fun _ h => h.2.2
  subst split
  refine .orRecover ?_
    (moving.rel_then (moving.rel_expectWord _) (moving.rel_expressions keeps.moves))
  refine .expectWord_bind fun word' inner' split hby => ?_
  subst split
  refine (expressions_kept keeps inner').mono fun exprs rest ⟨nonempty, kept, _⟩ => ?_
  cases exprs with
  | nil => exact absurd rfl nonempty
  | cons expr exprs =>
    exact (Kept.afterWord (.orRecover (.expectWord kept hby)) hkind).follow fun _ h => ⟨h.1, h.2.1⟩

/-- The items of a `FROM` clause are kept. -/
theorem fromClause_kept (words : List Word) :
    Ensures (clause [] (fromClause apply)) words fun tables rest =>
      Kept (clause [] (fromClause apply))
        (Keyword.FROM.word :: separated .comma (tables.map (TableRef.words false)))
        (fun behind => firstKind behind ∈ afterReference ∧ firstKind behind ≠ .comma) words tables
        rest := by
  refine .orRecover ?_
    (moving.rel_then (moving.rel_expectWord _) (moving.rel_oneOrMore _ (keeps.moves .tableReference)))
  refine .expectWord_bind fun word inner split hkind => ?_
  subst split
  have tables := Ensures.oneOrMore_kept .comma (TableRef.words false) inner
    (F := fun behind => firstKind behind ∈ afterReference)
    (S := fun words table _ => SameStart words (table.words false)) nofun rfl
    (fun _ => show TokenKind.comma ∈ afterReference by decide) (keeps.moves .tableReference)
    fun words => (keeps.preserves .tableReference words trivial).mono fun _ _ ⟨kept, start, _⟩ => ⟨kept, start⟩
  exact tables.mono fun tables rest ⟨_, _, _, _, _, _, kept⟩ => .orRecover (.expectWord kept hkind)

/-- A sort key is kept; the word for ascending order is left out. -/
theorem sortKey_kept (words : List Word) :
    Ensures (sortKey apply) words fun key rest =>
      Kept (sortKey apply) (key.words false)
        (fun behind => firstKind behind ∈ [.comma, .keyword .OFFSET] ++ afterQuery) words key rest ∧
      SameStart words (key.words false) := by
  refine (expression_kept keeps words).bind fun expr middle ⟨keptExpr, start⟩ => ?_
  have ascending {rest : List Word} (same : openings middle = openings rest) :
      Kept (sortKey apply) (SortKey.words false ⟨expr, .ascending⟩)
        (fun behind => firstKind behind ∈ [.comma, .keyword .OFFSET] ++ afterQuery) words
        ⟨expr, .ascending⟩ rest := by
    have tail : Kept (do
          if ← eatWord .DESC then pure ⟨expr, .descending⟩
          else
            let _ ← eatWord .ASC
            pure ⟨expr, .ascending⟩) []
        (fun behind => firstKind behind ∈ [.comma, .keyword .OFFSET] ++ afterQuery) middle
        (⟨expr, .ascending⟩ : SortKey) rest := by
      refine ⟨fun _ h => absurd h List.not_mem_nil, by simp [same], fun behind h => ?_⟩
      have ends : firstKind behind ≠ .keyword .DESC ∧ firstKind behind ≠ .keyword .ASC := by
        generalize firstKind behind = kind at h
        revert kind
        decide
      exact .bind (.eat_false ends.1) (.bind (.eat_false ends.2) (.pure _ _))
    exact .bind keptExpr tail fun _ h => endsExpression_of_mem h (by decide)
  refine .eatWord_bind (fun word rest split hkind => .pure ⟨?_, start.append nofun⟩) fun _ => ?_
  · subst split
    exact .bind keptExpr (.eatWord (.pure _ rest) hkind) fun _ _ => rfl
  · refine .eatWord_bind (fun word rest split hkind => .pure ?_) fun _ => .pure ?_
    · exact ⟨ascending (by simp [split, hkind]), start.append nofun⟩
    · exact ⟨ascending rfl, start.append nofun⟩

/-- Sort keys that may be missing are kept. -/
theorem sortKeys_kept (words : List Word) :
    Ensures (afterWord .ORDER [] (clause [] (sortKeys apply))) words fun keys rest =>
      Kept (afterWord .ORDER [] (clause [] (sortKeys apply)))
        (listClauseWords [Keyword.ORDER.word, Keyword.BY.word] (keys.map (SortKey.words false)))
        (fun behind => firstKind behind ∈ .keyword .OFFSET :: afterQuery) words keys rest := by
  refine .afterWord (fun word inner split hkind => ?_) fun _ => .afterWord_missed fun _ h => ?_
  · subst split
    refine .orRecover ?_
      (moving.rel_then (moving.rel_expectWord _) (moving.rel_oneOrMore _ (keeps.moves .sortKey)))
    refine .expectWord_bind fun word' inner' split hby => ?_
    subst split
    have keys := Ensures.oneOrMore_kept .comma (SortKey.words false) inner'
      (F := fun behind => firstKind behind ∈ [.comma, .keyword .OFFSET] ++ afterQuery)
      (S := fun words key _ => SameStart words (key.words false)) nofun rfl
      (fun _ => show TokenKind.comma ∈ _ by decide) (keeps.moves .sortKey)
      fun words => (keeps.preserves .sortKey words trivial).mono fun _ _ ⟨kept, start, _⟩ => ⟨kept, start⟩
    refine keys.mono fun keys rest ⟨first, others, _, split, _, _, kept⟩ => ?_
    subst split
    refine (Kept.afterWord (.orRecover (.expectWord kept hby)) hkind).follow fun behind h => ?_
    generalize firstKind behind = kind at h
    revert kind
    decide
  · intro h'
    rw [h'] at h
    exact absurd h (by decide)

/-! ### Specifications -/

/-- A specification is kept. -/
theorem querySpec_kept (words : List Word) :
    Ensures (querySpec apply) words fun spec rest =>
      Kept (querySpec apply) (spec.words false) (fun behind => firstKind behind ∈ afterTerm) words
        spec rest ∧
      SameStart words (spec.words false) ∧ spec.keys = [] ∧ spec.offset = none := by
  refine .expectWord_bind fun word inner split hkind => ?_
  subst split
  refine (distinctness_kept inner).bind fun distinct middle keptDistinct => ?_
  refine (top_kept middle).bind fun top middle keptTop => ?_
  refine (keeps.preserves .selectList middle trivial).bind fun items middle ⟨keptItems, _, plain⟩ => ?_
  refine (fromClause_kept keeps middle).bind fun tables middle keptTables => ?_
  refine (condition_kept keeps .WHERE middle).bind fun rows middle keptRows => ?_
  refine (groups_kept keeps middle).bind fun groups middle keptGroups => ?_
  refine (condition_kept keeps .HAVING middle).bind fun having rest keptHaving => .pure ?_
  refine ⟨?_, .other (hkind ▸ by decide) hkind.symm, rfl, rfl⟩
  rw [QuerySpec.words, SelectItem.wordsList_eq_map, TableRef.wordsList_eq_map]
  -- what stands behind the items of the `FROM` clause, the grouping expressions, and so on
  have afterTables : ∀ kind ∈ .keyword .WHERE :: .keyword .GROUP :: .keyword .HAVING :: afterTerm,
      kind ∈ afterReference ∧ kind ≠ .comma := by decide
  have afterRows : ∀ kind ∈ .keyword .GROUP :: .keyword .HAVING :: afterTerm,
      endsExpression kind = true ∧ kind ≠ .keyword .WHERE := by decide
  have afterGroups : ∀ kind ∈ .keyword .HAVING :: afterTerm,
      endsExpression kind = true ∧ kind ≠ .comma ∧ kind ≠ .keyword .GROUP := by decide
  have afterHaving : ∀ kind ∈ afterTerm,
      endsExpression kind = true ∧ kind ≠ .keyword .HAVING := by decide
  change Kept (querySpec apply) (Keyword.SELECT.word :: (wordIf .DISTINCT distinct ++
    (clauseWords .TOP (top.map fun count => [countWord count.toNat]) ++
      (separated .comma (items.map (SelectItem.words false)) ++
        ((Keyword.FROM.word :: separated .comma (tables.map (TableRef.words false))) ++
          (clauseWords .WHERE (Expr.wordsOption false rows) ++
            (listClauseWords [Keyword.GROUP.word, Keyword.BY.word] (Expr.wordsList false groups) ++
              (clauseWords .HAVING (Expr.wordsOption false having) ++ [])))))))) _ _ _ _
  refine .expectWord (.bind keptDistinct (.bind keptTop (.bind keptItems (.bind keptTables
    (.bind keptRows (.bind keptGroups (.bind keptHaving (.pure _ rest) ?_) ?_) ?_) ?_) ?_) ?_) ?_)
    hkind
  · exact fun _ h => afterHaving _ h
  · intro behind h
    rw [List.append_nil]
    exact afterGroups _ (firstKind_clauseWords _ _ h)
  · intro behind h
    rw [List.append_nil, List.append_assoc]
    exact afterRows _ (firstKind_listClauseWords _ _ _ (firstKind_clauseWords _ _ h))
  · intro behind h
    rw [List.append_nil, List.append_assoc, List.append_assoc]
    exact afterTables _ (firstKind_clauseWords _ _
      (firstKind_listClauseWords _ _ _ (firstKind_clauseWords _ _ h)))
  · exact fun _ _ => rfl
  · intro behind _ h
    rw [List.append_assoc] at h
    exact plain _ (by rw [h]; decide)
  · intro behind _
    cases top with
    | some count => exact ⟨nofun, nofun⟩
    | none =>
      rw [Option.map_none, clauseWords, List.nil_append, List.append_assoc]
      exact ⟨fun h => plain _ (by rw [h]; decide), fun h => plain _ (by rw [h]; decide)⟩

/-! ### Query bodies and queries -/

/-- An operand of a set operator is kept. -/
theorem queryTerm_kept (words : List Word) :
    Ensures (queryTerm apply) words fun body rest =>
      Kept (queryTerm apply) (body.words false) (fun behind => firstKind behind ∈ afterTerm) words
        body rest ∧
      SameStart words (body.words false) ∧ body.Plain := by
  refine .check_ite nofun (fun word inner split hkind => ?_) fun missed => ?_
  · refine (keeps.preserves .querySpec words trivial).bind fun spec rest ⟨kept, start, shape⟩ => .pure ?_
    refine ⟨.check kept.bind_pure fun behind _ => ?_, start, fun _ h => by cases h; exact shape⟩
    have start : SameStart words (spec.words false) := start
    rw [QueryBody.words, start.firstKind_append, start.keyword_iff, split]
    exact hkind
  · refine .eat_bind nofun (fun word inner split opening => ?_) fun _ => .fail
    subst split
    refine (query_kept keeps inner).bind fun query middle ⟨kept, start⟩ => ?_
    refine .expect_bind nofun fun word' rest split closing => .pure ?_
    subst split
    refine ⟨.check_missed (.eat ?_ opening rfl) fun _ _ => nofun,
      .paren opening rfl (start.append nofun), fun _ => nofun⟩
    exact .bind kept (.expect (.pure _ rest) closing rfl) fun _ _ =>
      show TokenKind.rightParen ∈ afterQuery by decide

/-- A query body is kept. -/
theorem queryBody_kept (words : List Word) :
    Ensures (queryBody apply) words fun body rest =>
      Kept (queryBody apply) (body.words false) (fun behind => firstKind behind ∈ afterBody) words
        body rest ∧
      SameStart words (body.words false) ∧ body.Plain := by
  have joined := @setOperations_kept
    (setOperations (apply .queryTerm) SetOperator.intersect.level) SetOperator.union.level
    (EndsSet SetOperator.intersect.level) words ?_ ?_
    (moving.rel_setOperations (keeps.moves .queryTerm) _) ?_
  · refine joined.mono fun body rest known => ⟨known.1.follow ?_, known.2.1, known.2.2⟩
    have ends : ∀ kind ∈ afterBody, kind ∈ afterTerm ∧ setOperatorOf? kind = none := by decide
    intro behind h
    refine ⟨(ends _ h).1, ?_⟩
    rw [(ends _ h).2]
    exact fun _ found => by cases found
  · intro op words behind h
    refine ⟨?_, fun op' h' => .inl ?_⟩
    · cases op <;> simp [SetOperator.keyword, Keyword.word, TokenKind.word, afterTerm]
    · rw [h]
      exact h'
  · intro rest behind h
    refine ⟨h.1, fun op found => (h.2 op found).imp id fun looser => ?_⟩
    exact Nat.lt_of_lt_of_le looser (by decide)
  · intro words
    refine setOperations_kept (F := fun _ behind => firstKind behind ∈ afterTerm) words ?_ ?_
      (keeps.moves .queryTerm) fun words =>
        (keeps.preserves .queryTerm words trivial).mono fun _ _ known =>
          ⟨known.kept, known.start, known.shape⟩
    · intro op _ _ _
      cases op <;> simp [SetOperator.keyword, Keyword.word, TokenKind.word, afterTerm]
    · exact fun _ _ h => h.1

omit keeps in
/-- The names of the columns of a named query, if they are given, are kept. -/
theorem columnNames_kept (words : List Word) :
    Ensures columnNames words fun columns rest =>
      Kept columnNames (if columns.isEmpty then []
          else enclosed (separated .comma (columns.map fun column => [column.word])))
        (fun behind => firstKind behind ≠ .leftParen) words columns rest := by
  refine .eat_bind nofun (fun word inner split opening => ?_) fun _ => .pure ?_
  · subst split
    have names := Ensures.oneOrMore_kept .comma (fun name : Identifier => [name.word]) inner nofun
      rfl (fun _ => trivial) moving.rel_identifier identifier_kept
    refine names.bind fun columns middle ⟨first, others, _, split, _, _, kept⟩ => ?_
    subst split
    refine .expect_bind nofun fun word' rest split closing => .pure ?_
    subst split
    refine .eat ?_ opening rfl
    exact .bind kept (.expect (.pure _ rest) closing rfl) fun _ _ => ⟨trivial, nofun⟩
  · exact .eat_missed (.pure _ _) fun _ h => h

/-- A named query is kept. -/
theorem commonTable_kept (words : List Word) :
    Ensures (commonTable apply) words fun table rest =>
      Kept (commonTable apply) (table.words false) (fun _ => True) words table rest := by
  refine (identifier_kept words).bind fun name inner ⟨keptName, _⟩ => ?_
  refine (columnNames_kept inner).bind fun columns middle keptColumns => ?_
  refine .expectWord_bind fun word middle' split hkind => ?_
  subst split
  refine (parenthesizedQuery_kept keeps middle').bind fun query rest ⟨keptQuery, _⟩ => .pure ?_
  have tail := keptColumns.bind (f := fun columns => do
    expectWord .AS
    let query ← parenthesizedQuery apply
    pure (CommonTable.mk name columns query))
    (.expectWord keptQuery.bind_pure hkind) fun _ _ => nofun
  exact keptName.bind tail fun _ _ => trivial

/-- The named queries of a query, which may be missing, are kept. -/
theorem commonTables_kept (words : List Word) :
    Ensures (afterWord .WITH [] (oneOrMore .comma (apply .commonTable))) words fun tables rest =>
      Kept (afterWord .WITH [] (oneOrMore .comma (apply .commonTable)))
        (listClauseWords [Keyword.WITH.word] (tables.map (CommonTable.words false)))
        (fun behind => firstKind behind ≠ .comma ∧
          (firstKind behind = .keyword .WITH → firstKind rest = .keyword .WITH)) words tables
        rest ∧
      (tables = [] ∧ rest = words ∨ tables ≠ [] ∧ firstKind words = .keyword .WITH) := by
  refine .afterWord (fun word inner split hkind => ?_) fun missed => ⟨?_, .inl ⟨rfl, rfl⟩⟩
  · subst split
    have tables := Ensures.oneOrMore_kept .comma (CommonTable.words false) inner
      (F := fun _ => True) (S := fun _ _ _ => True) nofun rfl (fun _ => trivial)
      (keeps.moves .commonTable)
      fun words => (keeps.preserves .commonTable words trivial).mono fun _ _ ⟨kept, _, _⟩ => ⟨kept, trivial⟩
    refine tables.mono fun tables rest ⟨first, others, _, split, _, _, kept⟩ => ?_
    subst split
    refine ⟨(kept.afterWord hkind).follow fun _ h => ⟨trivial, h.1⟩, .inr ⟨nofun, hkind⟩⟩
  · exact .afterWord_missed fun behind h found => missed (h.2 found)

omit keeps in
/-- A lone specification is written with the sort keys and the offset of its query. -/
theorem assembleQuery_words {added : Bool} {body : QueryBody} (plain : body.Plain)
    (tables : List CommonTable) (keys : List SortKey) (offset : Option UInt64) :
    (assembleQuery tables body keys offset).words added =
      listClauseWords [Keyword.WITH.word] (tables.map (CommonTable.words added)) ++
        (body.words added ++
          (listClauseWords [Keyword.ORDER.word, Keyword.BY.word] (keys.map (SortKey.words added)) ++
            offsetWords offset)) := by
  cases body with
  | spec spec =>
    obtain ⟨noKeys, noOffset⟩ := plain spec rfl
    obtain ⟨distinct, top, items, from', rows, groups, having, keys', offset'⟩ := spec
    subst noKeys noOffset
    have lone : SortKey.wordsList added [] = [] ∧ offsetWords none = [] := ⟨rfl, rfl⟩
    simp only [assembleQuery, Query.words, QueryBody.words, QuerySpec.words, lone,
      CommonTable.wordsList_eq_map, SortKey.wordsList_eq_map, listClauseWords,
      List.append_nil, List.append_assoc, List.cons_append]
  | setOperation _ _ _ _ =>
    simp only [assembleQuery, Query.words, CommonTable.wordsList_eq_map, SortKey.wordsList_eq_map]
  | nested _ =>
    simp only [assembleQuery, Query.words, CommonTable.wordsList_eq_map, SortKey.wordsList_eq_map]

/-- A query is kept. -/
theorem wholeQuery_kept (words : List Word) :
    Ensures (query apply) words fun value rest =>
      Kept (query apply) (value.words false) (fun behind => firstKind behind ∈ afterQuery) words
        value rest ∧
      SameStart words (value.words false) := by
  refine (commonTables_kept keeps words).bind fun tables middle ⟨keptTables, starts⟩ => ?_
  refine (keeps.preserves .queryBody middle trivial).bind fun body middle' ⟨keptBody, start, plain⟩ => ?_
  refine (sortKeys_kept keeps middle').bind fun keys middle'' keptKeys => ?_
  refine (offset_kept middle'').bind fun offset rest keptOffset => .pure ?_
  rw [assembleQuery_words plain]
  have start : SameStart middle (body.words false) := start
  have afterBody' {behind : List Word} (h : firstKind behind ∈ afterQuery) :
      firstKind (listClauseWords [Keyword.ORDER.word, Keyword.BY.word]
        (keys.map (SortKey.words false)) ++ offsetWords offset ++ behind) ∈ afterBody := by
    rw [List.append_assoc]
    exact firstKind_listClauseWords _ _ _ (firstKind_clauseWords _ _ h)
  refine ⟨.bind keptTables (.bind keptBody (.bind keptKeys keptOffset.bind_pure ?_) ?_) ?_, ?_⟩
  · exact fun behind h => firstKind_clauseWords _ _ h
  · exact fun behind h => afterBody' h
  · intro behind _
    rw [List.append_assoc]
    refine ⟨start.firstKind_ne _ (by decide), ?_⟩
    rw [start.firstKind_append, start.keyword_iff]
    exact id
  · rcases starts with ⟨rfl, rfl⟩ | ⟨present, first⟩
    · have noDot : ∀ kind ∈ afterBody, kind ≠ .dot := by decide
      have ended := noDot _ (@afterBody' [] (by decide))
      rw [List.append_nil] at ended
      exact start.append ended
    · obtain ⟨word, inner, rfl, hkind⟩ := exists_cons_of_firstKind (by nofun) first
      cases tables with
      | nil => exact absurd rfl present
      | cons table tables => exact .other (hkind ▸ by decide) hkind.symm

end

end Adql
