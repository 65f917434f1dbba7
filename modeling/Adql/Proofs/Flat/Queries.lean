import Adql.Proofs.Flat.Expressions
import Adql.Proofs.Queries.Selections
import Adql.Proofs.RoundTrip.DeadEnds

/-!
# Flat queries

The rules for queries read the flat ones.  Select lists, `FROM` clauses, joins, grouping expressions
and sort keys are repetitions, whose steps read one piece each.  Set operations are two repetitions,
one in the other: the operands of `UNION` and `EXCEPT` take the operations with `INTERSECT` behind them.
In no place does the size of a query count against the allowance, so `Grammar.apply true 20` reads all
of them.
-/

namespace Adql

open Adql.Parser Adql.Grammar

namespace Flat

variable {allowance : Nat} {F : List TokenKind}

/-! ### Select lists -/

/-- Another name that may be missing is read. -/
theorem reads_otherName (other : .keyword .AS ∉ F)
    (noName : ∀ kind ∈ F, kind.isIdentifier = false) :
    ReadsAll (optional (Grammar.apply true (allowance + 1) .aliasName)) otherName F := by
  intro words behind text follows
  rcases text.perhaps with rfl | present
  · have stalls : Stalls (Grammar.apply true (allowance + 1) .aliasName) ([] ++ behind) :=
      .apply (.bind_right (.eat_false fun same => other (same ▸ follows))
        (identifier_stalls (noName _ follows)))
    exact ⟨none, .optional_none (stalls.fails rfl)⟩
  · have named : ReadsAll (Grammar.apply true (allowance + 1) .aliasName)
        (perhaps (word .AS) * name) TokenKind.all :=
      .apply (.eat_bind (fun _ => reads_name) (by decide))
    obtain ⟨value, read⟩ := named words behind present (TokenKind.mem_all _)
    exact ⟨some value, read.optional_some⟩

/-- An expression with another name or without one is read as an item. -/
theorem reads_derivedColumn (enough : 13 ≤ allowance) :
    ReadsAll (derivedColumn (Grammar.apply true allowance)) (chain * otherName) afterItem? := by
  obtain ⟨less, rfl⟩ : ∃ less, allowance = less + 1 := ⟨allowance - 1, by omega⟩
  refine ((reads_chain.of_le enough).mono (by decide)).bind fun expr => ?_
  exact (reads_otherName (by decide) (by decide)).bind_pure

/-- All columns of a table are read. -/
theorem reads_wildcard : ReadsAll qualifiedWildcard wildcard F := by
  refine reads_name.bind fun first => ReadsAll.bind_pure ?_
  refine .iterateUntil (G := TokenKind.all) rfl (fun state words behind text _ => ?_)
    (fun state words behind text _ => ?_) (fun kind _ => kind.mem_all) _
  · obtain ⟨point, _, rfl, hpoint, -, rest⟩ := text.char_mul
    obtain ⟨name, rfl, named, -⟩ := rest.oneOf
    have noStar : firstKind (name :: behind) ≠ .star := by
      intro same
      rw [firstKind_cons] at same
      rw [same] at named
      revert named
      decide
    obtain ⟨value, read⟩ := (reads_name (F := TokenKind.all)) [name] behind rest
      (TokenKind.mem_all _)
    exact ⟨(state.1.push value, false),
      .expect_bind hpoint ((Reads.eat_false noStar).bind (read.bind (.pure _ _)))⟩
  · obtain ⟨point, _, rfl, hpoint, -, rest⟩ := text.char_mul
    obtain ⟨star, rfl, hstar, -⟩ := rest.char
    exact ⟨(state.1, true), .expect_bind hpoint ((Reads.eat_true hstar).bind (.pure _ _))⟩

/-- An item of a select list is read, even if it starts like a wildcard and is none. -/
theorem reads_item : ReadsAll (Grammar.apply true 15 .selectItem) item afterItem? := by
  intro words behind text follows
  rcases text.add with column | all
  · have columns (more : Nat) : ReadsAll (derivedColumn (Grammar.apply true (13 + more)))
        (chain * otherName) afterItem? := reads_derivedColumn (Nat.le_add_right _ _)
    obtain ⟨value, read⟩ := columns 0 words behind column follows
    obtain ⟨value', read'⟩ := columns 1 words behind column follows
    by_cases qualified : ((firstKind (words ++ behind)).isIdentifier &&
        decide (secondKind (words ++ behind) = .dot)) = true
    · refine ⟨value, .apply ((Reads.currentKind _).bind ((Reads.nextKind _).bind ?_))⟩
      rw [if_pos qualified]
      exact .firstOf_right (qualifiedWildcard_fails read) (.apply read)
    · refine ⟨value', .apply ((Reads.currentKind _).bind ((Reads.nextKind _).bind ?_))⟩
      rw [if_neg qualified]
      exact read'
  · obtain ⟨value, read⟩ := reads_wildcard words behind all follows
    have qualified : ((firstKind (words ++ behind)).isIdentifier &&
        decide (secondKind (words ++ behind) = .dot)) = true := by
      obtain ⟨word, rest, rfl, named, others⟩ := all.oneOf_mul
      have next : firstKind (rest ++ behind) = .dot := by
        have ahead := others.firstKind_mem follows
        generalize firstKind (rest ++ behind) = kind at ahead
        revert kind
        decide
      have start : word.kind.isIdentifier = true := by
        revert named
        generalize word.kind = kind
        revert kind
        decide
      rw [List.cons_append, firstKind_cons, secondKind_cons, next, start]
      rfl
    refine ⟨value, .apply ((Reads.currentKind _).bind ((Reads.nextKind _).bind ?_))⟩
    rw [if_pos qualified]
    exact .firstOf_left (.apply read)

/-- A select list of any length is read. -/
theorem reads_selectList :
    ReadsAll (Grammar.apply true 16 .selectList) selectList [.keyword .FROM] := by
  intro words behind text follows
  rcases text.add with all | items
  · obtain ⟨star, rfl, hstar, -⟩ := all.char
    exact ⟨_, .apply ((Reads.eat_true hstar).bind (.pure _ _))⟩
  · have noStar : firstKind (words ++ behind) ≠ .star := by
      have start := items.firstKind_mem follows
      intro same
      rw [same] at start
      revert start
      decide
    have all : ReadsAll (oneOrMore .comma (Grammar.apply true 15 .selectItem))
        (separatedBy .comma item) [.keyword .FROM] := reads_item.oneOrMore (by decide)
    obtain ⟨value, read⟩ := all words behind items follows
    exact ⟨value, reads_selectList_of_items noStar read⟩

/-! ### Tables -/

/-- A table is read. -/
theorem reads_table : ReadsAll (Grammar.apply true 16 .tablePrimary) table afterTable := by
  refine .apply (.check_bind ?_ (by decide))
  refine (reads_qualified.mono (by decide)).bind fun name => ?_
  exact (reads_otherName (by decide) (by decide)).bind_pure

/-- The words of a join that is no product are read. -/
theorem reads_matchedJoin {words : List Word} (text : Matches matchedJoin words) (natural : Bool)
    (behind : List Word) :
    ∃ kind, kind ≠ .cross ∧ Reads (matchedJoin? natural) (words ++ behind) (some kind) behind := by
  -- the words in front of the last one are told by their kinds
  have missing {word : Word} {rest : List Word} {kind other : TokenKind} (same : word.kind = kind)
      (differ : kind ≠ other) : Reads (eat other) (word :: rest) false (word :: rest) :=
    .eat_false fun found => differ (same.symm.trans found)
  rcases text.add with inner | outer
  · rcases inner.add with alone | both
    · obtain ⟨join, rfl, hjoin, -⟩ := alone.char
      exact ⟨.inner, nofun, (Reads.eat_true hjoin).bind (.pure _ _)⟩
    · obtain ⟨first, _, rfl, hfirst, -, rest⟩ := both.char_mul
      obtain ⟨join, rfl, hjoin, -⟩ := rest.char
      exact ⟨.inner, nofun, (missing hfirst (by decide)).bind ((Reads.eat_true hfirst).bind
        (Reads.bind (.expect_bind hjoin (.pure _ _)) (.pure _ _)))⟩
  · obtain ⟨side, _, rfl, found, others⟩ := outer.oneOf_mul
    obtain ⟨optional, _, rfl, between, last⟩ := others.mul
    obtain ⟨join, rfl, hjoin, -⟩ := last.char
    have tail (kind : JoinKind) : Reads (do
        let _ ← eatWord .OUTER
        expectWord .JOIN
        return some kind) (optional ++ [join] ++ behind) (some kind) behind := by
      have joined : Reads (do expectWord .JOIN; return some kind) (join :: behind) (some kind)
          behind := .bind (.expect_bind hjoin (.pure _ _)) (.pure _ _)
      rcases between.perhaps with rfl | present
      · exact (missing hjoin (by decide)).bind joined
      · obtain ⟨word, rfl, hword, -⟩ := present.char
        exact (Reads.eat_true hword).bind joined
    have whole {kind : JoinKind} {keyword : Keyword} (hside : side.kind = .keyword keyword)
        (other : keyword ≠ .JOIN ∧ keyword ≠ .INNER)
        (read : Reads outerJoin? (side :: (optional ++ [join] ++ behind)) (some kind)
          (optional ++ [join] ++ behind)) :
        Reads (matchedJoin? natural) (side :: (optional ++ [join]) ++ behind) (some kind) behind :=
      (missing hside fun same => other.1 (TokenKind.keyword.inj same)).bind
        ((missing hside fun same => other.2 (TokenKind.keyword.inj same)).bind
          (read.bind (tail kind)))
    simp only [List.mem_cons, List.not_mem_nil, or_false] at found
    rcases found with hside | hside | hside
    · exact ⟨.left, nofun, whole hside (by decide) ((Reads.eat_true hside).bind (.pure _ _))⟩
    · exact ⟨.right, nofun, whole hside (by decide) ((missing hside (by decide)).bind
        ((Reads.eat_true hside).bind (.pure _ _)))⟩
    · exact ⟨.full, nofun, whole hside (by decide) ((missing hside (by decide)).bind
        ((missing hside (by decide)).bind ((Reads.eat_true hside).bind (.pure _ _))))⟩

/-- The kinds behind a table with a join: another join, or what follows all of them. -/
def afterJoin : List TokenKind :=
  heads join ++ afterReference

/-- One more join is read. -/
theorem reads_join {words behind : List Word} (left : TableRef) (text : Matches join words)
    (follows : firstKind behind ∈ afterJoin) :
    ∃ next, Reads (joinStep (Grammar.apply true 16) left) (words ++ behind) (.more next) behind := by
  have tables : ReadsAll (Grammar.apply true 16 .tablePrimary) table afterJoin :=
    reads_table.mono (by decide)
  rw [joinStep_eq]
  rcases text.add with free | matched
  · rcases free.add with product | natural
    · obtain ⟨cross, _, rfl, hcross, -, rest⟩ := product.char_mul
      obtain ⟨join, words, rfl, hjoin, -, text⟩ := rest.char_mul
      obtain ⟨right, read⟩ := tables words behind text follows
      have noNatural : firstKind (cross :: join :: words ++ behind) ≠ .keyword .NATURAL := by
        rw [List.cons_append, firstKind_cons, hcross]
        decide
      refine ⟨.join left .cross false right .none, (Reads.eat_false noNatural).bind ?_⟩
      have kind : Reads (joinKind? false) (cross :: join :: words ++ behind) (some .cross)
          (words ++ behind) :=
        (Reads.eat_true hcross).bind (Reads.bind (.expect_bind hjoin (.pure _ _)) (.pure _ _))
      exact kind.bind (read.bind ((Reads.pure _ _).bind (.pure _ _)))
    · obtain ⟨word, _, rfl, hword, -, rest⟩ := natural.char_mul
      obtain ⟨front, words, rfl, joins, text⟩ := rest.mul
      obtain ⟨right, read⟩ := tables words behind text follows
      obtain ⟨kind, -, readKind⟩ := reads_matchedJoin joins true (words ++ behind)
      refine ⟨.join left kind true right .none, ?_⟩
      rw [List.cons_append, List.append_assoc]
      refine (Reads.eat_true hword).bind ?_
      have found : Reads (joinKind? true) (front ++ (words ++ behind)) (some kind)
          (words ++ behind) := by
        rw [joinKind?_eq]
        exact (Reads.pure false _).bind readKind
      exact found.bind (read.bind ((Reads.pure _ _).bind (.pure _ _)))
  · obtain ⟨front, _, rfl, joins, rest⟩ := matched.mul
    obtain ⟨words, _, rfl, named, rest⟩ := rest.mul
    obtain ⟨on, condition, rfl, hon, -, rest⟩ := rest.char_mul
    have start : firstKind (front ++ (words ++ on :: (condition ++ behind))) ∈
        ahead matchedJoin TokenKind.all := joins.firstKind_mem (TokenKind.mem_all _)
    obtain ⟨kind, other, readKind⟩ := reads_matchedJoin joins false
      (words ++ on :: (condition ++ behind))
    obtain ⟨right, readRight⟩ := reads_table words (on :: (condition ++ behind)) named
      (by rw [firstKind_cons, hon]; decide)
    have ends : ∀ kind ∈ afterJoin, kind ∈ expressionEnds := by decide
    obtain ⟨matching, readMatching⟩ := reads_chain.of_le (by decide : 13 ≤ 16) condition behind rest
      (ends _ follows)
    refine ⟨.join left kind false right (.on matching), ?_⟩
    rw [List.append_assoc, List.append_assoc, List.cons_append]
    have missing {keyword : Keyword} (absent : .keyword keyword ∉ ahead matchedJoin []) :
        Reads (eatWord keyword) (front ++ (words ++ on :: (condition ++ behind))) false
          (front ++ (words ++ on :: (condition ++ behind))) :=
      .eat_false fun same => absent (same ▸ start)
    refine (missing (by decide)).bind ?_
    have found : Reads (joinKind? false) (front ++ (words ++ on :: (condition ++ behind)))
        (some kind) (words ++ on :: (condition ++ behind)) := by
      rw [joinKind?_eq]
      exact (missing (by decide)).bind readKind
    refine found.bind (readRight.bind (Reads.bind ?_ (.pure _ _)))
    have matchless : (false || decide (kind = .cross)) = false := by simp [other]
    rw [matchless]
    exact (Reads.eat_true hon).bind (readMatching.bind (.pure _ _))

/-- A table with any number of joins is read. -/
theorem reads_reference :
    ReadsAll (Grammar.apply true 17 .tableReference) reference afterReference := by
  refine .apply ((reads_table.mono (by decide)).bind fun first => ?_)
  exact .iterate rfl (fun left words behind text follows => reads_join left text follows)
    (fun left behind follows => ⟨left, reads_joinStep_done _ left follows⟩) (fun kind found => found)
    first

/-! ### Specifications -/

/-- A number of rows is read. -/
theorem reads_count : ReadsAll rowCount (.char .integer) F := by
  intro words behind text _
  obtain ⟨word, rfl, same, genuine⟩ := text.char
  obtain ⟨count, counts⟩ := genuine.counts same
  exact ⟨count, reads_rowCount same counts behind⟩

/-- A condition that may be missing is read. -/
theorem reads_condition {keyword : Keyword} (other : .keyword keyword ∉ F)
    (ends : ∀ kind ∈ F, kind ∈ expressionEnds) :
    ReadsAll (condition (Grammar.apply true 17) keyword) (clause keyword chain) F :=
  .afterWord (.orRecover (.map some ((reads_chain.of_le (by decide)).mono ends))) other

/-- Grouping expressions behind their words are read. -/
theorem reads_groups : ReadsAll (groups (Grammar.apply true 17)) (word .BY * separatedBy .comma chain)
    (.keyword .HAVING :: afterTerm) :=
  .expectWord_bind (.oneOrMore ((reads_chain.of_le (by decide)).mono (by decide)) (by decide))

/-- The items of a `FROM` clause are read. -/
theorem reads_fromClause : ReadsAll (fromClause (Grammar.apply true 17))
    (word .FROM * separatedBy .comma reference)
    (.keyword .WHERE :: .keyword .GROUP :: .keyword .HAVING :: afterTerm) :=
  .expectWord_bind (.oneOrMore (reads_reference.mono (by decide)) (by decide))

/-- A specification is read. -/
theorem reads_specification :
    ReadsAll (Grammar.apply true 18 .querySpec) specification afterTerm := by
  refine .apply (.expectWord_bind ?_)
  refine (ReadsAll.eitherWord _ _ (by decide) (by decide)).bind fun distinct => ?_
  refine (ReadsAll.afterWord (reads_count.map some) (by decide)).bind fun top => ?_
  refine ((reads_selectList.of_le (by decide)).mono (by decide)).bind fun items => ?_
  refine (reads_fromClause.mono (by decide)).orRecover.bind fun tables => ?_
  refine (reads_condition (by decide) (by decide)).bind fun rows => ?_
  refine (ReadsAll.afterWord (reads_groups.mono (by decide)).orRecover
    (by decide)).bind fun groups => ?_
  exact (reads_condition (by decide) (by decide)).bind fun having => .pure _

/-! ### Set operations -/

/-- A specification is read as an operand of a set operator. -/
theorem reads_term : ReadsAll (Grammar.apply true 19 .queryTerm) specification afterTerm := by
  intro words behind text follows
  have start : firstKind (words ++ behind) = .keyword .SELECT :=
    List.mem_singleton.mp (text.firstKind_mem follows)
  obtain ⟨spec, read⟩ := reads_specification words behind text follows
  exact ⟨.spec spec, .apply ((Reads.check_true start).bind (read.bind (.pure _ _)))⟩

/-- A set operator with its right operand is read, if what the operand reads is left to it. -/
theorem reads_operation {operand : Parser QueryBody} {level : Nat} {op : SetOperator}
    {word : Word} {front words rest : List Word} (left : QueryBody) {right : QueryBody}
    (hword : word.kind = .keyword op.keyword) (tight : level ≤ op.level)
    (optional : Matches (perhaps (Flat.word .ALL)) front) (other : firstKind words ≠ .keyword .ALL)
    (h : Reads operand words right rest) :
    ∃ next, Reads (setStep operand level left) (word :: (front ++ words)) (.more next) rest := by
  have whole (all : Bool) (read : Reads (eatWord .ALL) (front ++ words) all words) :
      Reads (setStep operand level left) (word :: (front ++ words))
        (.more (.setOperation op all left right)) rest := by
    refine (reads_setOperator _).bind ?_
    rw [firstKind_cons, setOperatorOf?_eq_some.mpr hword]
    simp only [if_neg (Nat.not_lt_of_le tight)]
    exact Reads.advance_bind fun _ _ => read.bind (h.bind (.pure _ _))
  rcases optional.perhaps with rfl | present
  · exact ⟨_, whole false (.eat_false other)⟩
  · obtain ⟨all, rfl, same, -⟩ := present.char
    exact ⟨_, whole true (.eat_true same)⟩

/-- Does the piece start with a set operator that binds looser than the level? -/
def LooseOperation (level : Nat) (piece : List Word) : Prop :=
  ∃ op : SetOperator, firstKind piece = .keyword op.keyword ∧ op.level < level

/-- Where the first operation binds looser than the level, or there is none, no set operator of the
level is read. -/
theorem LooseOperation.reads_done {operand : Parser QueryBody} {level : Nat}
    {pieces : List (List Word)} {behind : List Word} (left : QueryBody)
    (nonempty : ∀ piece ∈ pieces, piece ≠ []) (h : ∀ piece ∈ pieces.head?, LooseOperation level piece)
    (follows : firstKind behind ∈ afterBody) :
    Reads (setStep operand level left) (pieces.flatten ++ behind) (.done left)
      (pieces.flatten ++ behind) := by
  refine reads_setStep_done left fun op found => ?_
  have same := setOperatorOf?_eq_some.mp found
  cases pieces with
  | nil =>
    have ended : firstKind behind = .keyword op.keyword := same
    rw [ended] at follows
    cases op <;> exact absurd follows (by decide)
  | cons piece pieces =>
    obtain ⟨op', other, loose⟩ := h piece rfl
    obtain ⟨word, words, rfl⟩ := List.exists_cons_of_ne_nil (nonempty piece List.mem_cons_self)
    have both : op = op' := Option.some.inj
      (found.symm.trans (setOperatorOf?_eq_some.mpr (show word.kind = _ from other)))
    exact both ▸ loose

/-- Operands joined by set operators of a level are read up to the first operator that binds looser,
if each operand takes some of the operations behind it. -/
theorem exists_reads_setOperations {operand : Parser QueryBody} {behind : List Word}
    (follows : firstKind behind ∈ afterBody)
    (h : ∀ first pieces, Matches specification first → (∀ piece ∈ pieces, Matches operation piece) →
      ∃ value left, left <:+ pieces ∧
        Reads operand (first ++ (pieces.flatten ++ behind)) value (left.flatten ++ behind))
    (level : Nat) (first : List Word) (pieces : List (List Word))
    (start : Matches specification first) (each : ∀ piece ∈ pieces, Matches operation piece) :
    ∃ value left, left <:+ pieces ∧
      Reads (setOperations operand level) (first ++ (pieces.flatten ++ behind)) value
        (left.flatten ++ behind) ∧ ∀ piece ∈ left.head?, LooseOperation level piece := by
  obtain ⟨value, inner, taken, readFirst⟩ := h first pieces start each
  have listed : ∀ piece ∈ inner, Matches operation piece :=
    fun piece found => each piece (taken.subset found)
  have nonempty : ∀ piece ∈ inner, piece ≠ [] := fun piece found => (listed piece found).ne_nil rfl
  obtain ⟨last, left, suffix, stop, steps⟩ := exists_repeats (setStep operand level)
    (LooseOperation level) behind nonempty (fun state piece rest suffix tight => by
      obtain ⟨text, others⟩ := List.forall_mem_cons.mp
        (fun other found => listed other (suffix.subset found))
      obtain ⟨word, _, rfl, found, operands⟩ := text.oneOf_mul
      obtain ⟨front, words, rfl, optional, start⟩ := operands.mul
      have known : ∃ op : SetOperator, word.kind = .keyword op.keyword := by
        simp only [List.mem_cons, List.not_mem_nil, or_false] at found
        rcases found with same | same | same
        · exact ⟨.union, same⟩
        · exact ⟨.except, same⟩
        · exact ⟨.intersect, same⟩
      obtain ⟨op, same⟩ := known
      have level_le : level ≤ op.level := Nat.le_of_not_lt fun loose => tight ⟨op, same, loose⟩
      obtain ⟨right, left, taken, read⟩ := h words rest start others
      have select : firstKind (words ++ (rest.flatten ++ behind)) ∈
          ahead specification TokenKind.all := start.firstKind_mem (TokenKind.mem_all _)
      have other : firstKind (words ++ (rest.flatten ++ behind)) ≠ .keyword .ALL := by
        intro all
        rw [all] at select
        revert select
        decide
      obtain ⟨next, step⟩ := reads_operation state same level_le optional other read
      refine ⟨next, left, taken, ?_⟩
      rw [List.cons_append, List.append_assoc]
      exact step) value
  have done : Reads (setStep operand level last) (left.flatten ++ behind) (.done last)
      (left.flatten ++ behind) :=
    LooseOperation.reads_done last (fun piece found => nonempty piece (suffix.subset found)) stop
      follows
  exact ⟨last, left, suffix.trans taken, readFirst.bind (steps.iterate done), stop⟩

/-- A body with any number of set operations is read. -/
theorem reads_body : ReadsAll (Grammar.apply true 20 .queryBody) body afterBody := by
  intro words behind text follows
  obtain ⟨first, _, rfl, start, operations⟩ := text.mul
  obtain ⟨pieces, rfl, each⟩ := operations.star
  have terms : ∀ first pieces, Matches specification first →
      (∀ piece ∈ pieces, Matches operation piece) → ∃ value left, left <:+ pieces ∧
        Reads (Grammar.apply true 19 .queryTerm) (first ++ (pieces.flatten ++ behind)) value
          (left.flatten ++ behind) := by
    intro first pieces start each
    have ends : ∀ kind ∈ ahead operation.star afterBody, kind ∈ afterTerm := by decide
    obtain ⟨value, read⟩ := reads_term first (pieces.flatten ++ behind) start
      (ends _ ((Matches.flatten each).firstKind_mem follows))
    exact ⟨value, pieces, List.suffix_rfl, read⟩
  have intersections : ∀ first pieces, Matches specification first →
      (∀ piece ∈ pieces, Matches operation piece) → ∃ value left, left <:+ pieces ∧
        Reads (setOperations (Grammar.apply true 19 .queryTerm) SetOperator.intersect.level)
          (first ++ (pieces.flatten ++ behind)) value (left.flatten ++ behind) := by
    intro first pieces start each
    obtain ⟨value, left, taken, read, -⟩ := exists_reads_setOperations follows terms
      SetOperator.intersect.level first pieces start each
    exact ⟨value, left, taken, read⟩
  obtain ⟨value, left, -, read, stop⟩ := exists_reads_setOperations follows intersections
    SetOperator.union.level first pieces start each
  -- no set operator binds looser than a union
  have none : left = [] := by
    cases left with
    | nil => rfl
    | cons piece left =>
      obtain ⟨op, -, loose⟩ := stop piece rfl
      cases op <;> exact absurd loose (by decide)
  rw [none] at read
  rw [List.append_assoc]
  exact ⟨value, .apply read⟩

/-! ### Queries -/

/-- A sort key is read. -/
theorem reads_sortKey : ReadsAll (Grammar.apply true 20 .sortKey) sortKey
    (.comma :: .keyword .OFFSET :: afterQuery) :=
  .apply (((reads_chain.of_le (by decide)).mono (by decide)).bind fun _ =>
    .eitherWord _ _ (by decide) (by decide))

/-- Sort keys behind their words are read. -/
theorem reads_sortKeys : ReadsAll (sortKeys (Grammar.apply true 20))
    (word .BY * separatedBy .comma sortKey) (.keyword .OFFSET :: afterQuery) :=
  .expectWord_bind (.oneOrMore reads_sortKey (by decide))

/-- A query is read. -/
theorem reads_query : ReadsAll (Grammar.apply true 21 .query) query afterQuery := by
  refine .apply (.afterWord_bind ?_ (by decide))
  refine (reads_body.mono (by decide)).bind fun body => ?_
  refine (ReadsAll.afterWord (reads_sortKeys.mono (by decide)).orRecover
    (by decide)).bind fun keys => ?_
  exact (ReadsAll.afterWord (reads_count.map some).orRecover (by decide)).bind
    fun offset => .pure _

end Flat

end Adql
