import Adql.Proofs.RoundTrip.Expressions

/-!
# Tables are kept

The bodies of the rules for the items of a `FROM` clause keep what they read, if the rules that they
apply do.  The words of a join are written out: `JOIN` alone for an inner join, and `OUTER` with every
outer join.
-/

namespace Adql

open Adql.Parser Adql.Grammar

/-! ### Joins -/

/-- The kinds that start the words of a join. -/
def joinKinds : List TokenKind :=
  [.keyword .CROSS, .keyword .JOIN, .keyword .INNER, .keyword .LEFT, .keyword .RIGHT,
   .keyword .FULL]

/-- The words of an outer join are read. -/
theorem reads_outerJoin {kind : JoinKind} {keyword : Keyword}
    (h : (kind, keyword) ∈ [(.left, .LEFT), (.right, .RIGHT), (.full, .FULL)])
    (behind : List Word) : Reads outerJoin? (keyword.word :: behind) (some kind) behind := by
  simp only [List.mem_cons, Prod.mk.injEq, List.not_mem_nil, or_false] at h
  rcases h with ⟨rfl, rfl⟩ | ⟨rfl, rfl⟩ | ⟨rfl, rfl⟩
  · exact .bind (.eat_true rfl) (.pure _ _)
  · exact .bind (.eat_false (by nofun)) (.bind (.eat_true rfl) (.pure _ _))
  · exact .bind (.eat_false (by nofun)) (.bind (.eat_false (by nofun))
      (.bind (.eat_true rfl) (.pure _ _)))

/-- The words of a join are read. -/
theorem reads_joinKind {natural : Bool} {kind : JoinKind} (h : natural = true → kind ≠ .cross)
    (behind : List Word) : Reads (joinKind? natural) (kind.words ++ behind) (some kind) behind := by
  have product {words : List Word} (hkind : firstKind words ≠ .keyword .CROSS) :
      Reads (if natural then pure false else eatWord .CROSS) words false words := by
    cases natural with
    | true => exact .pure false words
    | false => exact .eat_false hkind
  have outer {keyword : Keyword}
      (h : (kind, keyword) ∈ [(.left, .LEFT), (.right, .RIGHT), (.full, .FULL)])
      (other : keyword ∉ [.CROSS, .JOIN, .INNER]) :
      Reads (joinKind? natural) (keyword.word :: Keyword.OUTER.word :: Keyword.JOIN.word :: behind)
        (some kind) behind := by
    have different {other' : Keyword} (hother : other' ∈ [Keyword.CROSS, .JOIN, .INNER])
        (words : List Word) : firstKind (keyword.word :: words) ≠ .keyword other' := by
      intro same
      cases TokenKind.keyword.inj same
      exact other hother
    refine (product (different (by decide) _)).bind ?_
    refine (Reads.eat_false (different (by decide) _)).bind ?_
    refine (Reads.eat_false (different (by decide) _)).bind ?_
    refine (reads_outerJoin h _).bind ?_
    refine (Reads.eat_true rfl).bind ?_
    exact (Reads.expectWord .JOIN _).bind (.pure _ _)
  cases kind with
  | inner => exact .bind (product (by nofun)) (.bind (.eat_true rfl) (.pure _ _))
  | left => exact outer (by decide) (by decide)
  | right => exact outer (by decide) (by decide)
  | full => exact outer (by decide) (by decide)
  | cross =>
    cases natural with
    | true => exact absurd rfl (h rfl)
    | false => exact (Reads.eat_true rfl).bind ((Reads.expectWord .JOIN _).bind (.pure _ _))

/-- Where no join starts, none is read. -/
theorem reads_joinKind_none {words : List Word} (h : firstKind words ∉ joinKinds) :
    Reads (joinKind? false) words none words := by
  have missing {keyword : Keyword} (hkeyword : .keyword keyword ∈ joinKinds) :
      Reads (eatWord keyword) words false words :=
    .eat_false fun same => h (same ▸ hkeyword)
  refine (missing (by decide)).bind ((missing (by decide)).bind ((missing (by decide)).bind ?_))
  have outer : Reads outerJoin? words none words :=
    (missing (by decide)).bind ((missing (by decide)).bind ((missing (by decide)).bind
      (.pure _ _)))
  exact outer.bind (.pure _ _)

/-- An outer join is told by its first word. -/
theorem outerJoin_ensures (words : List Word) :
    Ensures outerJoin? words fun kind? rest =>
      match kind? with
      | some kind => kind ≠ .cross ∧ rest.length < words.length ∧ openings words = openings rest
      | none => rest = words := by
  have found {word : Word} {rest : List Word} {keyword : Keyword} {kind : JoinKind}
      (split : words = word :: rest) (hkind : word.kind = .keyword keyword) (h : kind ≠ .cross) :
      kind ≠ .cross ∧ rest.length < words.length ∧ openings words = openings rest := by
    subst split
    exact ⟨h, Nat.lt_succ_self _, by simp [hkind]⟩
  refine .eatWord_bind (fun _ _ split hkind => .pure (found split hkind nofun)) fun _ => ?_
  refine .eatWord_bind (fun _ _ split hkind => .pure (found split hkind nofun)) fun _ => ?_
  refine .eatWord_bind (fun _ _ split hkind => .pure (found split hkind nofun)) fun _ => ?_
  exact .pure rfl

/-- The words of a join that is no product. -/
def matchedJoin? (natural : Bool) : Parser (Option JoinKind) := do
  if ← eatWord .JOIN then
    return some .inner
  if ← eatWord .INNER then
    expectWord .JOIN
    return some .inner
  match ← outerJoin? with
  | some kind =>
    let _ ← eatWord .OUTER
    expectWord .JOIN
    return some kind
  | none => if natural then fail else return none

/-- A join is a product or not; natural joins are no products. -/
theorem joinKind?_eq (natural : Bool) :
    joinKind? natural = (do
      if ← (if natural then pure false else eatWord .CROSS) then
        expectWord .JOIN
        return some .cross
      matchedJoin? natural) :=
  rfl

/-- What comes of looking for a join: a join that may be natural, or nothing. -/
def FoundJoin (natural : Bool) (words : List Word) (kind? : Option JoinKind) (rest : List Word) :
    Prop :=
  match kind? with
  | some kind => (natural = true → kind ≠ .cross) ∧ rest.length < words.length ∧
      openings words = openings rest
  | none => natural = false ∧ rest = words

/-- The word `JOIN` ends the words of a join. -/
theorem joined_ensures {natural : Bool} {kind : JoinKind} {words inner : List Word}
    (h : natural = true → kind ≠ .cross) (shorter : inner.length ≤ words.length)
    (same : openings words = openings inner) :
    Ensures (do expectWord .JOIN; pure (some kind)) inner (FoundJoin natural words) := by
  refine .expectWord_bind fun word rest split hkind => .pure ⟨h, ?_, ?_⟩
  · rw [split, List.length_cons] at shorter
    omega
  · rw [same, split]
    simp [hkind]

/-- Behind the words of a join that is no product, they are gone. -/
theorem matchedJoin_ensures (natural : Bool) (words : List Word) :
    Ensures (matchedJoin? natural) words (FoundJoin natural words) := by
  refine .eatWord_bind (fun word rest split hkind => .pure ?_) fun _ => ?_
  · subst split
    exact ⟨fun _ => nofun, Nat.lt_succ_self _, by simp [hkind]⟩
  refine .eatWord_bind (fun word rest split hkind => ?_) fun _ => ?_
  · subst split
    exact joined_ensures (fun _ => nofun) (Nat.le_succ _) (by simp [hkind])
  refine (outerJoin_ensures words).bind fun kind? rest found => ?_
  cases kind? with
  | some kind =>
    obtain ⟨product, shorter, same⟩ := found
    refine .eatWord_bind (fun word rest split hkind => ?_) fun _ => ?_
    · refine joined_ensures (fun _ => product) ?_ ?_
      · rw [split, List.length_cons] at shorter
        omega
      · rw [same, split]
        simp [hkind]
    · exact joined_ensures (fun _ => product) (Nat.le_of_lt shorter) same
  | none =>
    subst found
    cases natural with
    | true => exact .fail
    | false => exact .pure ⟨rfl, rfl⟩

/-- Behind the words of a join, they are gone. -/
theorem joinKind_ensures (natural : Bool) (words : List Word) :
    Ensures (joinKind? natural) words (FoundJoin natural words) := by
  rw [joinKind?_eq]
  cases natural with
  | true => exact .reads_bind (.pure false words) (matchedJoin_ensures true words)
  | false =>
    refine .eatWord_bind (fun word rest split hkind => ?_) fun _ => matchedJoin_ensures false words
    subst split
    exact joined_ensures nofun (Nat.le_succ _) (by simp [hkind])

/-- The words of a join are kept. -/
theorem FoundJoin.kept {natural : Bool} {words rest : List Word} {kind : JoinKind}
    (h : FoundJoin natural words (some kind) rest) :
    Kept (joinKind? natural) kind.words (fun _ => True) words (some kind) rest := by
  obtain ⟨product, -, same⟩ := h
  refine ⟨?_, ?_, fun behind _ => reads_joinKind product behind⟩
  · cases kind <;> simp [JoinKind.words, Keyword.spelled_word]
  · rw [same]
    cases kind <;> simp [JoinKind.words, Keyword.word, TokenKind.word]

/-- The words of a join stand behind a table. -/
theorem JoinKind.firstKind_words (kind : JoinKind) (behind : List Word) :
    firstKind (kind.words ++ behind) ∈ joinKinds := by
  cases kind <;> simp [JoinKind.words, joinKinds, Keyword.word, TokenKind.word]

section

variable (apply : (rule : Rule) → Parser rule.Result)

/-- One more join behind the word for a natural one. -/
def joinedTable (left : TableRef) (natural : Bool) : Parser (Step TableRef) := do
  match ← joinKind? natural with
  | none => pure (.done left)
  | some kind =>
    let right ← apply .tablePrimary
    let constraint ← joinConstraint apply (natural || kind = .cross)
    pure (.more (.join left kind natural right constraint))

/-- A join may be natural. -/
theorem joinStep_eq (left : TableRef) :
    joinStep apply left = (do joinedTable apply left (← eatWord .NATURAL)) :=
  rfl

/-- Behind the last join, no join is read. -/
theorem reads_joinStep_done (left : TableRef) {behind : List Word}
    (ends : firstKind behind ∈ afterReference) :
    Reads (joinStep apply left) behind (.done left) behind := by
  have none : firstKind behind ≠ .keyword .NATURAL ∧ firstKind behind ∉ joinKinds := by
    generalize firstKind behind = kind at ends
    revert kind
    decide
  exact .bind (.eat_false none.1) (.bind (reads_joinKind_none none.2) (.pure _ _))

end

section

variable {apply : (rule : Rule) → Parser rule.Result} (keeps : KeepsRules apply)

include keeps

/-- What matches the rows of a join is kept. -/
theorem joinConstraint_kept (free : Bool) (words : List Word) :
    Ensures (joinConstraint apply free) words fun constraint rest =>
      Kept (joinConstraint apply free) (constraint.words false)
        (fun behind => endsExpression (firstKind behind) = true) words constraint rest ∧
      ∀ behind, firstKind behind ∈ afterTable →
        firstKind (constraint.words false ++ behind) ∈ afterTable := by
  cases free with
  | true => exact .pure ⟨.pure _ _, fun _ h => h⟩
  | false =>
    refine .eatWord_bind (fun word inner split hkind => ?_) fun _ => ?_
    · subst split
      refine (expression_kept keeps inner).bind fun condition rest ⟨kept, _⟩ => .pure ?_
      exact ⟨.eatWord kept.bind_pure hkind,
        fun _ _ => show TokenKind.keyword .ON ∈ afterTable by decide⟩
    · refine .eatWord_bind (fun word inner split hkind => ?_) fun _ => .fail
      subst split
      refine (nameList_kept inner).bind fun columns rest ⟨_, kept⟩ => .pure ?_
      refine ⟨.eatWord_missed (.eatWord ?_ hkind) fun _ _ => nofun,
        fun _ _ => show TokenKind.keyword .USING ∈ afterTable by decide⟩
      exact kept.bind_pure.follow fun _ _ => trivial

/-- One more join is kept behind the word for a natural one, or there is none. -/
theorem joinedTable_kept (left : TableRef) (natural : Bool) (words : List Word) :
    Ensures (joinedTable apply left natural) words (AfterStep
      (fun next rest => ∃ bare, bare ≠ [] ∧ rest.length < words.length ∧
        next.words false = left.words false ++ (wordIf .NATURAL natural ++ bare) ∧
        Kept (joinedTable apply left natural) bare (fun behind => firstKind behind ∈ afterTable)
          words (.more next) rest ∧
        ∀ behind, firstKind (bare ++ behind) ∈ joinKinds)
      (fun final rest => final = left ∧ natural = false ∧ rest = words)) := by
  refine (joinKind_ensures natural words).bind fun kind? middle found => ?_
  cases kind? with
  | none => exact .pure ⟨rfl, found⟩
  | some kind =>
    have keptKind := found.kept
    obtain ⟨-, shorter, -⟩ := found
    refine ((keeps.preserves .tablePrimary middle trivial).length_le (keeps.moves _)).bind ?_
    rintro right middle' ⟨⟨keptRight, _, _⟩, shorter'⟩
    refine ((joinConstraint_kept keeps _ middle').length_le
      (moving.rel_joinConstraint keeps.moves _)).bind ?_
    rintro constraint rest ⟨⟨keptConstraint, links⟩, shorter''⟩
    refine .pure ⟨kind.words ++ (right.words false ++ constraint.words false), ?_, by omega, rfl, ?_,
      fun behind => ?_⟩
    · cases kind <;> exact List.cons_ne_nil _ _
    · refine .bind keptKind (.bind keptRight (keptConstraint.bind_pure.follow ?_) links) ?_
      · exact fun _ h => endsExpression_of_mem h (by decide)
      · exact fun _ _ => trivial
    · rw [List.append_assoc]
      exact kind.firstKind_words _

/-- One more join is kept, or there is none. -/
theorem joinStep_kept (left : TableRef) (words : List Word) :
    Ensures (joinStep apply left) words (AfterStep
      (fun next rest => ∃ bare, bare ≠ [] ∧ rest.length < words.length ∧
        next.words false = left.words false ++ bare ∧
        Kept (joinStep apply left) bare (fun behind => firstKind behind ∈ afterTable) words
          (.more next) rest ∧
        ∀ behind, firstKind (bare ++ behind) ∈ afterTable)
      (fun final rest => final = left ∧
        Kept (joinStep apply left) [] (fun behind => firstKind behind ∈ afterReference) words
          (.done left) rest)) := by
  have afterJoin {kind : TokenKind} (h : kind ∈ joinKinds) :
      kind ∈ afterTable ∧ kind ≠ .keyword .NATURAL := by
    revert kind
    decide
  rw [joinStep_eq]
  refine .eatWord_bind (fun word inner split hkind => ?_) fun missed => ?_
  · subst split
    refine (joinedTable_kept keeps left true inner).mono fun step rest hstep => ?_
    cases step with
    | done final => exact absurd hstep.2.1 nofun
    | more next =>
      obtain ⟨bare, _, shorter, hwords, kept, _⟩ := hstep
      exact ⟨Keyword.NATURAL.word :: bare, List.cons_ne_nil _ _, Nat.lt_succ_of_lt shorter, hwords,
        .eatWord kept hkind, fun _ => show TokenKind.keyword .NATURAL ∈ afterTable by decide⟩
  · refine (joinedTable_kept keeps left false words).mono fun step rest hstep => ?_
    cases step with
    | done final =>
      obtain ⟨rfl, _, rfl⟩ := hstep
      exact ⟨rfl, fun _ h => absurd h List.not_mem_nil, by simp,
        fun behind hbehind => reads_joinStep_done apply final hbehind⟩
    | more next =>
      obtain ⟨bare, nonempty, shorter, hwords, kept, starts⟩ := hstep
      refine ⟨bare, nonempty, shorter, hwords, .eatWord_missed kept ?_, ?_⟩
      · exact fun behind _ => (afterJoin (starts behind)).2
      · exact fun behind => (afterJoin (starts behind)).1

/-- A table with joins is kept. -/
theorem tableReference_kept (words : List Word) :
    Ensures (tableReference apply) words fun table rest =>
      Kept (tableReference apply) (table.words false)
        (fun behind => firstKind behind ∈ afterReference) words table rest ∧
      SameStart words (table.words false) := by
  refine (keeps.preserves .tablePrimary words trivial).bind fun first middle ⟨keptFirst, start, _⟩ => ?_
  have loop := Ensures.iterate_kept (joinStep apply) first middle
    (H := fun _ behind => firstKind behind ∈ afterTable)
    (D := fun _ behind => firstKind behind ∈ afterReference)
    (P := fun table emitted => table.words false = first.words false ++ emitted)
    (Q := fun table emitted => table.words false = first.words false ++ emitted)
    (List.append_nil _).symm fun left emitted words hemitted => by
      refine (joinStep_kept keeps left words).mono fun step rest hstep => ?_
      cases step with
      | more next =>
        obtain ⟨bare, nonempty, shorter, hwords, kept, links⟩ := hstep
        exact ⟨bare, nonempty, shorter, by rw [hwords, hemitted, List.append_assoc], kept,
          fun behind _ => links behind⟩
      | done final =>
        obtain ⟨rfl, kept⟩ := hstep
        refine ⟨[], by rw [hemitted, List.append_nil], kept, fun behind h => ?_⟩
        exact List.mem_append_right [_, _, _, _, _, _, _, _, _] h
  refine loop.mono fun table rest ⟨bare, hwords, kept, links⟩ => ?_
  rw [hwords]
  have ended := links [] (by decide)
  rw [List.append_nil] at ended
  refine ⟨keptFirst.bind kept links, start.append fun h => ?_⟩
  rw [h] at ended
  exact absurd ended (by decide)

/-- A query that stands for a table is kept. -/
theorem derivedTable_kept (words : List Word) :
    Ensures (derivedTable apply) words fun table rest =>
      Kept (derivedTable apply) (table.words false) (fun _ => True) words table rest ∧
      SameStart words (table.words false) := by
  refine (parenthesizedQuery_kept keeps words).bind fun query middle ⟨keptQuery, start⟩ => ?_
  refine (aliasName_kept middle).bind fun name rest keptName => .pure ?_
  exact ⟨.bind keptQuery keptName.bind_pure fun _ _ => trivial, start.append nofun⟩

/-- Joins in parentheses are kept. -/
theorem nestedTable_kept (words : List Word) :
    Ensures (nestedTable apply) words fun table rest =>
      Kept (nestedTable apply) (table.words false) (fun _ => True) words table rest ∧
      SameStart words (table.words false) := by
  refine .map ?_
  refine .expect_bind nofun fun word inner split opening => ?_
  subst split
  refine (keeps.preserves .tableReference inner trivial).bind fun table middle ⟨kept, start, _⟩ => ?_
  refine .expect_bind nofun fun word' rest split closing => .pure ?_
  subst split
  refine ⟨.map TableRef.nested (.expect ?_ opening rfl), .paren opening rfl (start.append nofun)⟩
  exact .bind kept (.expect (.pure table rest) closing rfl) fun _ _ =>
    show TokenKind.rightParen ∈ afterReference by decide

/-- A name that may be missing is kept; where it is missing, no name may follow. -/
theorem optionalAlias_kept (words : List Word) :
    Ensures (optional (apply .aliasName)) words fun alias? rest =>
      Kept (optional (apply .aliasName)) (aliasWords alias?)
        (fun behind => firstKind behind ≠ .keyword .AS ∧ (firstKind behind).isIdentifier = false)
        words alias? rest := by
  refine .optional ?_ (keeps.settles _ _ rfl) fun fails => ?_
  · refine (keeps.preserves .aliasName words trivial).mono fun name rest ⟨kept, _, _⟩ => ?_
    exact kept.optional_some.follow fun _ _ => trivial
  · exact .optional_none fun behind h => keeps.aliasFails words behind fails h.1 h.2

omit keeps in
/-- A name for what stands in front of it is written behind the word `AS`. -/
theorem firstKind_aliasWords (alias? : Option Identifier) (behind : List Word) :
    firstKind (aliasWords alias? ++ behind) = .keyword .AS ∨
      firstKind (aliasWords alias? ++ behind) = firstKind behind := by
  cases alias? with
  | none => exact .inr rfl
  | some name => exact .inl rfl

/-- A table is kept. -/
theorem tablePrimary_kept (words : List Word) :
    Ensures (tablePrimary apply) words fun table rest =>
      Kept (tablePrimary apply) (table.words false) (fun behind => firstKind behind ∈ afterTable)
        words table rest ∧
      SameStart words (table.words false) := by
  refine .check_ite nofun (fun word inner split opening => ?_) fun missed => ?_
  · have again {table : TableRef} (start : SameStart words (table.words false))
        (behind : List Word) : firstKind (table.words false ++ behind) = .leftParen := by
      rw [start.firstKind_append, start.leftParen_iff, split]
      exact opening
    refine .firstOf ?_ (keeps.settles _ _ rfl) fun fails => ?_
    · refine (keeps.preserves .derivedTable words trivial).mono fun table rest ⟨kept, start, _⟩ => ⟨?_, start⟩
      refine .check (Kept.follow (.firstOf_left kept) fun _ _ => trivial) fun behind _ => ?_
      exact again start behind
    · refine ((keeps.preserves .nestedTable words trivial).and (keeps.derivedFails words fails)).mono ?_
      refine fun table rest ⟨⟨kept, start, _⟩, fails'⟩ => ⟨?_, start⟩
      refine .check (Kept.follow (F := fun _ => True) (.firstOf_right kept ?_) fun _ _ => trivial)
        fun behind _ => again start behind
      exact fun behind _ => fails' behind
  · refine (qualifiedName_kept words).bind fun name middle ⟨keptName, start⟩ => ?_
    refine (optionalAlias_kept keeps middle).bind fun alias? rest keptAlias => .pure ?_
    have noDot : firstKind (aliasWords alias? ++ []) ≠ .dot := by
      cases alias? <;> nofun
    rw [List.append_nil] at noDot
    refine ⟨.check_missed (.bind keptName ?_ ?_) ?_, start.append noDot⟩
    · refine keptAlias.bind_pure.follow fun behind h => ?_
      generalize firstKind behind = kind at h
      revert kind
      decide
    · intro behind h
      rcases firstKind_aliasWords alias? behind with found | found
      · rw [found]
        nofun
      · rw [found]
        intro h'
        rw [h'] at h
        exact absurd h (by decide)
    · intro behind _
      rw [TableRef.words, List.append_assoc, start.firstKind_append, Ne, start.leftParen_iff]
      exact missed

end

end Adql
