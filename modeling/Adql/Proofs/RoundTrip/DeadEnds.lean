import Adql.Proofs.RoundTrip.Parentheses

/-!
# Alternatives that are given up

An alternative that is given up in the source is given up in the written words as well: a
parenthesis in a `FROM` clause that is no query with a name (`derivedFails`), an item of a select list
that is no wildcard (`wildcardFails`), and a name that is missing (`aliasFails`).
-/

namespace Adql

open Adql.Parser Adql.Grammar

/-! ### Tables in parentheses -/

/-- No query is read from the words up to a closing parenthesis. -/
def Unclosed (allowance : Nat) (words : List Word) : Prop :=
  Stalls (apply true allowance .query) words ∨ ∃ query rest,
    Reads (apply true allowance .query) words query rest ∧ firstKind rest ≠ .rightParen

/-- What reads a query up to a closing parenthesis stalls where there is none. -/
theorem Unclosed.stalls {β : Type} {allowance : Nat} {words : List Word} (h : Unclosed allowance words)
    (f : Query → Token → Parser β) :
    Stalls (do
      let query ← apply true allowance .query
      let closing ← expect .rightParen
      f query closing) words := by
  rcases h with stalls | ⟨query, rest, reads, open'⟩
  · exact stalls.bind_left
  · exact .bind_right reads (.bind_left (.expect open'))

/-! ### Names -/

/-- A qualified name starts with a name. -/
theorem qualifiedName_starts (words : List Word) :
    Ensures qualifiedName words fun _ _ => (firstKind words).isIdentifier = true := by
  cases named : (firstKind words).isIdentifier with
  | true => exact (qualifiedName_kept words).mono fun _ _ _ => rfl
  | false => exact (identifier_stalls named).bind_left.bind_left.ensures

/-- Where a name is missing, none is read. -/
theorem aliasFails {allowance : Nat} {words behind : List Word}
    (fails : Fails (apply true allowance .aliasName) words)
    (other : firstKind behind ≠ .keyword .AS) (noName : (firstKind behind).isIdentifier = false) :
    Fails (apply true allowance .aliasName) behind := by
  cases allowance with
  | zero => exact absurd fails.stalls (Aborts.apply_zero _ _).not_stalls
  | succ less =>
    have stalls : Stalls (apply true (less + 1) .aliasName) behind :=
      .apply (.bind_right (.eat_false other) (identifier_stalls noName))
    exact stalls.fails rfl

/-! ### Wildcards -/

/-- No qualified name goes on with the words. -/
def NamesStall (words : List Word) : Prop :=
  ∀ names count, words.length < count →
    Stalls (repeatAtMost (listStep .dot identifier) count names) words

/-- A star behind a point is no name. -/
theorem NamesStall.star {point star : Word} {rest : List Word} (hpoint : point.kind = .dot)
    (hstar : star.kind = .star) : NamesStall (point :: star :: rest) := by
  intro names count enough
  obtain ⟨count, rfl⟩ : ∃ less, count = less + 1 := ⟨count - 1, by omega⟩
  have noName : (firstKind (star :: rest)).isIdentifier = false := by
    rw [firstKind_cons, hstar]
    rfl
  exact .bind_left (.bind_right (.eat_true hpoint) (identifier_stalls noName).bind_left)

/-- If no name goes on behind a name, none goes on in front of the point. -/
theorem NamesStall.more {point : Word} {inner rest : List Word} {name : Identifier}
    (hpoint : point.kind = .dot) (reads : Reads identifier inner name rest)
    (shorter : rest.length < inner.length) (h : NamesStall rest) :
    NamesStall (point :: inner) := by
  intro names count enough
  obtain ⟨count, rfl⟩ : ∃ less, count = less + 1 := ⟨count - 1, by omega⟩
  have step : Reads (listStep .dot identifier names) (point :: inner) (.more (names.push name)) rest :=
    (Reads.eat_true hpoint).bind (reads.bind (.pure _ _))
  rw [List.length_cons] at enough
  exact .bind_right step (h _ count (by omega))

/-- A name is read from one word. -/
theorem identifier_reads {good : Word → Prop} (words : List Word) :
    Ensures identifier words (fun name rest => ∃ word, words = word :: rest ∧
      word.kind.isIdentifier = true ∧ Reads identifier (word :: rest) name rest) good := by
  rcases identifier_decided words with ⟨name, word, rest, rfl, named, reads⟩ | ⟨_, stalls⟩
  · exact (reads rest).ensures ⟨word, rfl, named, reads rest⟩
  · exact stalls.ensures

/-- The words of a wildcard are no qualified name, though they start like one. -/
theorem qualifiedWildcard_ensures {good : Word → Prop} (words : List Word) :
    Ensures qualifiedWildcard words (fun _ _ => (firstKind words).isIdentifier = true ∧
      secondKind words = .dot ∧ Stalls qualifiedName words) good := by
  refine (identifier_reads words).bind ?_
  rintro first inner ⟨word, rfl, named, reads⟩
  have loop : Ensures (iterate wildcardStep (#[first], false)) inner
      (fun _ _ => firstKind inner = .dot ∧ NamesStall inner) good := by
    refine Ensures.iterate (I := fun _ ahead => (firstKind ahead = .dot → firstKind inner = .dot) ∧
      (NamesStall ahead → NamesStall inner)) ⟨id, id⟩ fun state ahead ⟨point, stalls⟩ => ?_
    refine .expect_bind nofun fun word rest split hpoint => ?_
    subst split
    refine .eat_bind nofun (fun star rest split hstar => .pure ?_) fun _ => ?_
    · subst split
      exact ⟨point hpoint, stalls (.star hpoint hstar)⟩
    · refine (identifier_reads rest).bind ?_
      rintro name rest' ⟨word, rfl, _, reads⟩
      have shorter : rest'.length < (word :: rest').length := Nat.lt_succ_self _
      refine .pure ⟨⟨?_, ?_⟩, ?_⟩
      · exact fun _ => point hpoint
      · exact fun h => stalls (.more hpoint reads shorter h)
      · exact Nat.lt_succ_of_lt shorter
  refine loop.bind fun state rest ⟨point, stalls⟩ => .pure ⟨named, ?_, ?_⟩
  · rw [secondKind_cons]
    exact point
  · have names : Stalls (iterate (listStep .dot identifier) #[first]) inner :=
      .bind_right (.remaining inner) (stalls _ _ (Nat.lt_succ_self _))
    exact .bind_left (.bind_right reads names.bind_left)

/-- No expression starts like a wildcard. -/
theorem wildcard_never {words : List Word} (named : (firstKind words).isIdentifier = true)
    (point : secondKind words = .dot) (stalls : Stalls qualifiedName words) (allowance : Nat)
    {good : Word → Prop} :
    Ensures (apply true allowance .expression) words (fun _ _ => False) good := by
  have plain : UnaryOp.ofToken? (firstKind words) = none ∧ firstKind words ∉ literalKinds ∧
      primaryOf (apply true 0) (firstKind words) = nameOrCall (apply true 0) := by
    cases hkind : firstKind words with
    | identifier => exact ⟨rfl, by decide, rfl⟩
    | delimitedIdentifier => exact ⟨rfl, by decide, rfl⟩
    | _ => rw [hkind] at named; cases named
  obtain ⟨noPrefix, noLiteral, names⟩ := plain
  have column : Stalls (nameOrCall (apply true 0)) words := by
    refine .bind_right (.nextKind words) ?_
    rw [point, if_neg nofun]
    exact stalls.bind_left
  have expression : Stalls (apply true 2 .expression) words := by
    refine expression_stalls noPrefix noLiteral ?_
    rw [names]
    exact column
  exact expression.never allowance

/-- What is read as an expression is no wildcard. -/
theorem qualifiedWildcard_fails {allowance : Nat} {words rest : List Word} {item : SelectItem}
    (reads : Reads (derivedColumn (apply true allowance)) words item rest) :
    Fails (apply true (allowance + 1) .qualifiedWildcard) words := by
  have decided : Decided qualifiedWildcard words := by
    refine .bind (Decided.identifier words) fun first rest => ?_
    refine .bind (.iterate (fun state words => ?_) _ rest) fun _ rest => .pure _ rest
    refine .expect_bind .dot nofun (fun rest => ?_) words
    refine .bind (.eat .star nofun rest) fun star rest => ?_
    cases star with
    | true => exact .pure _ rest
    | false => exact .bind (Decided.identifier rest) fun name rest => .pure _ rest
  rcases decided with ⟨value, rest', wildcard⟩ | stalls
  · obtain ⟨named, point, stalls⟩ := (qualifiedWildcard_ensures words).of_reads wildcard
      (.any words)
    have never : Ensures (derivedColumn (apply true allowance)) words (fun _ _ => False)
        fun _ => True :=
      (wildcard_never named point stalls allowance).bind fun _ _ h => h.elim
    exact (never.of_reads reads (.any words)).elim
  · have stalls : Stalls (apply true (allowance + 1) .qualifiedWildcard) words := .apply stalls
    exact stalls.fails rfl

/-- An item that was read as an expression is written as words that are no wildcard. -/
theorem wildcardFails {allowance : Nat} {words : List Word}
    (keeps : ∀ less < allowance, KeepsRules (apply true less)) :
    Ensures (apply true allowance .derivedColumn) words fun item _ => ∀ behind,
      firstKind behind ∈ afterItem? →
        Fails (apply true allowance .qualifiedWildcard) (item.words false ++ behind) := by
  refine .apply fun n hn => (derivedColumn_kept (keeps n (by omega)) words).mono ?_
  rintro item rest ⟨kept, _⟩ behind hbehind
  subst hn
  exact qualifiedWildcard_fails (kept.reads behind hbehind)

/-! ### Queries in parentheses -/

section

variable {opening : Word} {words rest behind : List Word} {allowance : Nat}

/-- A query in parentheses nests a query three levels deep. -/
theorem query_aborts (hopening : opening.kind = .leftParen)
    (h : Aborts (apply true allowance .query) words) :
    Aborts (apply true (allowance + 3) .query) (opening :: words) := by
  have other {kind : TokenKind} (h : kind ≠ .leftParen) : firstKind (opening :: words) ≠ kind := by
    rw [firstKind_cons, hopening]
    exact h.symm
  have term : Aborts (apply true (allowance + 1) .queryTerm) (opening :: words) :=
    .apply_succ (.bind_right (.check_false (other (by nofun))) (.bind_right (.eat_true hopening)
      h.bind_left))
  have body : Aborts (apply true (allowance + 2) .queryBody) (opening :: words) :=
    .apply_succ (.bind_left (.bind_left term))
  exact .apply_succ (.bind_right (.afterWord_none (other (by nofun))) body.bind_left)

/-- Where no query is read up to a closing parenthesis, there is no query in parentheses. -/
theorem Unclosed.query_stalls (hopening : opening.kind = .leftParen) (h : Unclosed allowance words) :
    Stalls (apply true (allowance + 3) .query) (opening :: words) := by
  have other {kind : TokenKind} (h : kind ≠ .leftParen) : firstKind (opening :: words) ≠ kind := by
    rw [firstKind_cons, hopening]
    exact h.symm
  have term : Stalls (apply true (allowance + 1) .queryTerm) (opening :: words) :=
    .apply (.bind_right (.check_false (other (by nofun))) (.bind_right (.eat_true hopening)
      (h.stalls _)))
  have body : Stalls (apply true (allowance + 2) .queryBody) (opening :: words) :=
    .apply (.bind_left (.bind_left term))
  exact .apply (.bind_right (.afterWord_none (other (by nofun))) (.bind_left body))

/-- A query needs three levels at least. -/
theorem query_aborts_of_lt (h : firstKind words ≠ .keyword .WITH) (few : allowance < 3) :
    Aborts (apply true allowance .query) words := by
  have term : Aborts (apply true 0 .queryTerm) words := .apply_zero _ _
  have body (n : Nat) (few : n < 2) : Aborts (apply true n .queryBody) words := by
    match n with
    | 0 => exact .apply_zero _ _
    | 1 => exact .apply_succ (.bind_left (.bind_left term))
  match allowance with
  | 0 => exact .apply_zero _ _
  | n + 1 => exact .apply_succ (.bind_right (.afterWord_none h) (body n (by omega)).bind_left)

/-- A query in parentheses is an operand of a set operator. -/
theorem reads_nestedTerm {closing : Word} {query : Query} (hopening : opening.kind = .leftParen)
    (hclosing : closing.kind = .rightParen)
    (h : Reads (apply true allowance .query) words query (closing :: rest)) :
    Reads (apply true (allowance + 1) .queryTerm) (opening :: words) (.nested query) rest := by
  have other : firstKind (opening :: words) ≠ .keyword .SELECT := by
    rw [firstKind_cons, hopening]
    nofun
  refine .apply ((Reads.check_false other).bind ((Reads.eat_true hopening).bind ?_))
  exact h.bind (.expect_bind hclosing (.pure _ rest))

/-- An operand is a body, where no set operator follows it. -/
theorem reads_queryBody_of_term {body : QueryBody} (ends : firstKind rest ∉ afterOperand)
    (h : Reads (apply true allowance .queryTerm) words body rest) :
    Reads (apply true (allowance + 1) .queryBody) words body rest := by
  have noOperator : setOperatorOf? (firstKind rest) = none := by
    cases hop : setOperatorOf? (firstKind rest) with
    | none => rfl
    | some op =>
      refine absurd (setOperatorOf?_eq_some.mp hop ▸ ?_) ends
      cases op <;> decide
  have loop {operand : Parser QueryBody} {words : List Word} {body : QueryBody} (level : Nat)
      (h : Reads operand words body rest) : Reads (setOperations operand level) words body rest :=
    (Chains.of_reads h).reads (reads_setStep_done body (by rw [noOperator]; nofun))
  exact .apply (loop _ (loop _ h))

/-- A body with the named queries in front of it is a query, where neither sort keys nor an offset
follow it. -/
theorem reads_query {tables : List CommonTable} {body : QueryBody} {middle : List Word}
    (ends : firstKind rest ∉ afterOperand)
    (named : Reads (afterWord .WITH [] (oneOrMore .comma (apply true allowance .commonTable))) words
      tables middle)
    (h : Reads (apply true allowance .queryBody) middle body rest) :
    Reads (apply true (allowance + 1) .query) words (assembleQuery tables body [] none) rest := by
  have missing {kind : TokenKind} (h : kind ∈ afterOperand) : firstKind rest ≠ kind := by
    intro same
    exact ends (same ▸ h)
  refine .apply (named.bind (h.bind ?_))
  refine (Reads.afterWord_none (missing (by decide))).bind ?_
  exact (Reads.afterWord_none (missing (by decide))).bind (.pure _ rest)

/-- A query in parentheses is a query. -/
theorem reads_nestedQuery {closing : Word} {query : Query} (hopening : opening.kind = .leftParen)
    (hclosing : closing.kind = .rightParen) (ends : firstKind rest ∉ afterOperand)
    (h : Reads (apply true allowance .query) words query (closing :: rest)) :
    Reads (apply true (allowance + 3) .query) (opening :: words) ⟨[], .nested query, [], none⟩
      rest := by
  have other : firstKind (opening :: words) ≠ .keyword .WITH := by
    rw [firstKind_cons, hopening]
    nofun
  exact reads_query ends (.afterWord_none other)
    (reads_queryBody_of_term ends (reads_nestedTerm hopening hclosing h))

variable {apply' : (rule : Rule) → Parser rule.Result}

/-- The words of a table with joins begin with the words of its first table. -/
theorem joins_begin (keeps : KeepsRules apply') (first : TableRef) (words : List Word) :
    Ensures (iterate (joinStep apply') first) words fun table _ =>
      ∃ tail, table.words false = first.words false ++ tail := by
  refine Ensures.iterate (I := fun table _ => ∃ tail,
    table.words false = first.words false ++ tail) ⟨[], (List.append_nil _).symm⟩ ?_
  rintro left words ⟨tail, hleft⟩
  refine (joinStep_kept keeps left words).mono fun step rest hstep => ?_
  cases step with
  | more next =>
    obtain ⟨bare, _, shorter, hwords, _⟩ := hstep
    exact ⟨⟨tail ++ bare, by rw [hwords, hleft, List.append_assoc]⟩, shorter⟩
  | done final =>
    obtain ⟨rfl, _⟩ := hstep
    exact ⟨tail, hleft⟩

/-- Behind a query with a name, there is no closing parenthesis, but the name. -/
theorem derivedTable_unclosed (keeps : ∀ less < allowance, KeepsRules (apply true less)) :
    Ensures (apply true allowance .derivedTable) words fun table _ => ∀ behind,
      Unclosed (allowance + 2) (table.words false ++ behind) := by
  refine .apply fun n hn => ?_
  subst hn
  have enclosed : Ensures (parenthesizedQuery (apply true n)) words fun query _ => ∀ behind,
      Reads (apply true n .query) (query.words false ++ TokenKind.rightParen.word :: behind) query
        (TokenKind.rightParen.word :: behind) := by
    refine .expect_bind nofun fun _ inner _ _ => ?_
    refine (query_kept (keeps n (by omega)) inner).bind fun query middle ⟨kept, _⟩ => ?_
    refine .expect_bind nofun fun _ _ _ _ => .pure fun behind => ?_
    exact kept.reads _ (show TokenKind.rightParen ∈ afterQuery by decide)
  refine enclosed.bind fun query middle reads => ?_
  refine (aliasName_kept middle).bind fun name rest _ => .pure fun behind => .inr ?_
  refine ⟨⟨[], .nested query, [], none⟩, Keyword.AS.word :: name.word :: behind, ?_, nofun⟩
  have ends : firstKind (Keyword.AS.word :: name.word :: behind) ∉ afterOperand :=
    show TokenKind.keyword .AS ∉ afterOperand by decide
  have opened : TokenKind.leftParen.word.kind = .leftParen := rfl
  have again := reads_nestedQuery opened rfl ends (reads _)
  simpa [TableRef.words, Adql.enclosed] using again

/-- Behind the parenthesis of joins in parentheses, there is no query. -/
theorem nestedTable_unclosed
    (inside : ∀ less inner, less + 1 = allowance →
      (∀ opening : Word, words = opening :: inner → opening.kind = .leftParen →
        Ensures (apply true less .tableReference) inner fun table _ => ∀ behind,
          Unclosed less (table.words false ++ behind))) :
    Ensures (apply true allowance .nestedTable) words fun table _ => ∀ behind,
      Unclosed (allowance + 2) (table.words false ++ behind) := by
  refine .apply fun n hn => .map ?_
  subst hn
  refine .expect_bind (by decide) fun opening inner split hopening => ?_
  subst split
  refine (inside n inner rfl opening rfl hopening).bind fun table middle unclosed => ?_
  refine .expect_bind (by decide) fun _ _ _ _ => .pure fun behind => .inl ?_
  have split : (TableRef.nested table).words false ++ behind = TokenKind.leftParen.word ::
      (table.words false ++ TokenKind.rightParen.word :: behind) := by
    rw [TableRef.words, enclosed, List.cons_append, List.append_assoc, List.singleton_append]
  rw [split]
  exact (unclosed _).query_stalls rfl

/-- The words of a table are no query up to a closing parenthesis, whatever stands behind them. -/
theorem table_unclosed (keeps : ∀ less < allowance, KeepsRules (apply true less))
    (alive : ¬Aborts (apply true allowance .query) words) :
    Ensures (apply true allowance .tableReference) words fun table _ => ∀ behind,
      Unclosed allowance (table.words false ++ behind) := by
  induction allowance using Nat.strongRecOn generalizing words with
  | ind allowance ih =>
    refine .apply fun n hn => ?_
    -- the first table tells
    have primary : Ensures (apply true n .tablePrimary) words fun table _ => ∀ behind,
        Unclosed allowance (table.words false ++ behind) := by
      refine .apply fun b hb => ?_
      subst hn hb
      refine .check_ite (by decide) (fun word inner split hopening => ?_) fun missed => ?_
      · refine .firstOf (derivedTable_unclosed fun less h => keeps less (by omega))
          ((keeps b (by omega)).settles _ _ rfl) fun _ => ?_
        refine nestedTable_unclosed fun c inner hc opening split hopening => ?_
        subst hc split
        refine ih c (by omega) (fun less h => keeps less (by omega)) fun aborts => ?_
        exact alive (query_aborts hopening aborts)
      · refine ((qualifiedName_kept words).and (qualifiedName_starts words)).bind ?_
        rintro name middle ⟨⟨_, start⟩, named⟩
        have same := nearby.rel_optional (apply_nearby (Nat.le_refl b) .aliasName)
        refine (Ensures.of_nearby same middle).bind fun alias? rest _ => .pure fun behind => .inl ?_
        have plain {kind : TokenKind} (h : kind.isIdentifier = true) :
            startsQuery kind ≠ true ∧ kind ≠ .leftParen ∧ kind ≠ .keyword .WITH := by
          cases kind with
          | identifier => decide
          | delimitedIdentifier => decide
          | _ => cases h
        obtain ⟨less, rfl⟩ : ∃ less, b = less + 1 := by
          have deep : ¬b + 1 + 1 < 3 := fun few =>
            alive (query_aborts_of_lt (plain named).2.2 few)
          exact ⟨b - 1, by omega⟩
        have named' : (firstKind ((TableRef.table name alias?).words false ++ behind)).isIdentifier =
            true := by
          rw [TableRef.words, List.append_assoc, start.firstKind_append,
            start.firstKind_congr TokenKind.isIdentifier rfl]
          exact named
        exact query_stalls less (plain named').1 (plain named').2.1
    refine primary.bind fun first middle hfirst => ?_
    refine (joins_begin (keeps n (by omega)) first middle).mono ?_
    rintro table rest ⟨tail, hwords⟩ behind
    rw [hwords, List.append_assoc]
    exact hfirst _

/-- A parenthesis that is no query with a name in the source is none in the written words. -/
theorem derivedFails (keeps : ∀ less < allowance, KeepsRules (apply true less))
    (fails : Fails (apply true allowance .derivedTable) words) :
    Ensures (apply true allowance .nestedTable) words fun table _ => ∀ behind,
      Fails (apply true allowance .derivedTable) (table.words false ++ behind) := by
  refine .apply fun n hn => .map ?_
  subst hn
  refine .expect_bind nofun fun opening inner split hopening => ?_
  subst split
  -- the source does not nest too deep for a query
  have alive : ¬Aborts (apply true n .query) inner := by
    intro aborts
    have derived : Aborts (apply true (n + 1) .derivedTable) (opening :: inner) :=
      .apply_succ (.bind_left (.expect_bind hopening aborts.bind_left))
    exact derived.not_stalls fails.stalls
  have unclosed := table_unclosed (fun less h => keeps less (by omega)) alive
  refine unclosed.bind fun table middle unclosed => ?_
  refine .expect_bind nofun fun _ _ _ _ => .pure fun behind => ?_
  have split : (TableRef.nested table).words false ++ behind = TokenKind.leftParen.word ::
      (table.words false ++ TokenKind.rightParen.word :: behind) := by
    rw [TableRef.words, enclosed, List.cons_append, List.append_assoc, List.singleton_append]
  rw [split]
  have stalls : Stalls (apply true (n + 1) .derivedTable) (TokenKind.leftParen.word ::
      (table.words false ++ TokenKind.rightParen.word :: behind)) :=
    .apply (.bind_left (.expect_bind rfl ((unclosed _).stalls _)))
  exact stalls.fails rfl

end

end Adql
