import Adql.Proofs.RoundTrip.Queries

/-!
# Queries in parentheses as expressions

A parenthesis that encloses a query may be read as an expression in parentheses or as a scalar
subquery.  If the query starts with a parenthesis itself, its first operand is read as an expression
with the same words (`reads_parenthesizedQuery`); so a parenthesis that is no expression in the source
is none in the written words (`trialFails`): behind the first operand there stands a set operator or
one of the last clauses of a query.
-/

namespace Adql

open Adql.Parser Adql.Grammar

/-! ### Queries that start with a parenthesis -/

/-- The kinds that go on with a query behind its first operand. -/
def afterOperand : List TokenKind :=
  [.keyword .UNION, .keyword .EXCEPT, .keyword .INTERSECT, .keyword .ORDER, .keyword .OFFSET]

/-- The query that is nothing but the query in parentheses. -/
def Query.inParentheses (query : Query) : Query :=
  ⟨[], .nested query, [], none⟩

/-- The row starts with other words, which were read up to given words of the source.  If there is
more in the row, a query goes on there, in the source as well as in the row.  One thing is known if
the other words are alone, and another thing if there is more. -/
def Begins (alone further : Prop) (first behind row rest : List Word) : Prop :=
  ∃ tail, row = first ++ tail ∧ (alone ∧ tail = [] ∧ rest = behind ∨
    further ∧ firstKind tail ∈ afterOperand ∧ firstKind behind ∈ afterOperand)

namespace Begins

variable {alone further alone' further' : Prop} {first behind row rest rest' more : List Word}

/-- Nothing more is in the row. -/
theorem refl (h : alone) (first behind : List Word) :
    Begins alone further first behind first behind :=
  ⟨[], (List.append_nil first).symm, .inl ⟨h, rfl, rfl⟩⟩

/-- More words may stand in the row if a query goes on with them, in the source as well. -/
theorem append (h : Begins alone further first behind row rest)
    (source : firstKind rest ∈ afterOperand) (written : firstKind more ∈ afterOperand)
    (known : further') : Begins alone' further' first behind (row ++ more) rest' := by
  obtain ⟨tail, rfl, ⟨_, rfl, rfl⟩ | ⟨_, tail', behind'⟩⟩ := h
  · exact ⟨more, by rw [List.append_nil], .inr ⟨known, written, source⟩⟩
  · refine ⟨tail ++ more, List.append_assoc _ _ _, .inr ⟨known, ?_, behind'⟩⟩
    cases tail with
    | nil => exact absurd tail' (by decide)
    | cons _ _ => exact tail'

end Begins

/-- Operands joined by set operators have what the first operand has, if set operators keep it. -/
theorem setOperations_ensures {operand : Parser QueryBody} {words : List Word}
    {C : QueryBody → List Word → Prop} {good : Word → Prop} (level : Nat)
    (moves : moving.rel Eq operand operand)
    (anywhere : ∀ words, Ensures operand words (fun _ _ => True) good)
    (h : Ensures operand words C good)
    (step : ∀ op all left right words rest, C left words →
      firstKind words = .keyword (SetOperator.keyword op) → C (.setOperation op all left right) rest) :
    Ensures (setOperations operand level) words C good := by
  refine h.bind fun left middle hleft => ?_
  refine Ensures.iterate (I := C) hleft fun left words hleft => ?_
  refine .reads_bind (reads_setOperator words) ?_
  cases hop : setOperatorOf? (firstKind words) with
  | none => exact .pure hleft
  | some op =>
    refine .ite (fun _ => .pure hleft) fun _ => ?_
    have hkind := setOperatorOf?_eq_some.mp hop
    obtain ⟨word, inner, rfl, -⟩ := exists_cons_of_firstKind (by nofun) hkind
    refine .advance_bind fun _ _ _ => ?_
    refine .bind (P := fun _ rest => rest.length ≤ inner.length) ?_ fun all middle shorter => ?_
    · refine (Ensures.of_nearby (nearby.rel_eat _) inner).length_le (moving.rel_eat _) |>.mono ?_
      exact fun _ _ h => h.2
    · refine ((anywhere middle).length_le moves).bind fun right rest ⟨_, shorter'⟩ => .pure ?_
      refine ⟨step op all left right _ rest hleft hkind, ?_⟩
      rw [List.length_cons]
      omega

/-- The row begins with a query in parentheses, which was read from the words behind the first
parenthesis of the source; it is told whether the query in parentheses is alone. -/
def BeginsNested (alone : Query → Prop) (inner : List Word) (allowance : Nat)
    (row rest : List Word) : Prop :=
  ∃ less operand closing behind, less < allowance ∧
    Reads (apply true less .query) inner operand (closing :: behind) ∧
    closing.kind = .rightParen ∧
    Begins (alone operand) (∀ other, ¬alone other) (enclosed (operand.words false)) behind row rest

/-- More words may stand in the row if a query goes on with them, in the source as well. -/
theorem BeginsNested.append {alone alone' : Query → Prop} {inner row rest rest' more : List Word}
    {allowance : Nat} (h : BeginsNested alone inner allowance row rest)
    (source : firstKind rest ∈ afterOperand) (written : firstKind more ∈ afterOperand)
    (further : ∀ operand, ¬alone' operand) :
    BeginsNested alone' inner allowance (row ++ more) rest' := by
  obtain ⟨less, operand, closing, behind, smaller, reads, hkind, begins⟩ := h
  exact ⟨less, operand, closing, behind, smaller, reads, hkind,
    begins.append source written further⟩

/-- A query that starts with a parenthesis begins with a query in parentheses. -/
theorem query_begins (allowance : Nat) {word : Word} {inner : List Word} {good : Word → Prop}
    (opening : word.kind = .leftParen) :
    Ensures (apply true allowance .query) (word :: inner) (fun query rest =>
      BeginsNested (query = ·.inParentheses) inner allowance (query.words false) rest) good := by
  have other {kind : TokenKind} (h : kind ≠ .leftParen) : firstKind (word :: inner) ≠ kind := by
    rw [firstKind_cons, opening]
    exact h.symm
  have rules (allowance : Nat) : ∀ rule, nearby.rel Eq (apply true allowance rule)
      (apply true allowance rule) := apply_nearby (Nat.le_refl allowance)
  refine .apply fun n hn => ?_
  refine .reads_bind (.afterWord_none (other (by nofun))) ?_
  let Holds (body : QueryBody) (rest : List Word) : Prop :=
    BeginsNested (body = .nested ·) inner allowance (body.words false) rest ∧
      ∀ spec, body ≠ .spec spec
  have term (n' : Nat) (smaller : n' < n) :
      Ensures (apply true n' .queryTerm) (word :: inner) Holds good := by
    refine .apply fun less hless => ?_
    refine .reads_bind (.check_false (other (by nofun))) (.reads_bind (.eat_true opening) ?_)
    refine (Ensures.reads .query less inner).bind fun operand middle reads => ?_
    refine .expect_bind nofun fun closing rest split hkind => .pure ⟨?_, fun _ => nofun⟩
    subst split
    exact ⟨less, operand, closing, rest, by omega, reads less (Nat.le_refl _), hkind, .refl rfl _ _⟩
  have body : Ensures (apply true n .queryBody) (word :: inner) Holds good := by
    refine .apply fun n' hn' => ?_
    have step (op : SetOperator) (all : Bool) (left right : QueryBody) (words rest : List Word)
        (hleft : Holds left words) (hkind : firstKind words = .keyword op.keyword) :
        Holds (.setOperation op all left right) rest := by
      have operator : TokenKind.keyword op.keyword ∈ afterOperand := by cases op <;> decide
      exact ⟨hleft.1.append (hkind ▸ operator) operator fun _ => nofun, fun _ => nofun⟩
    refine setOperations_ensures _ ?_ ?_ (setOperations_ensures _ ?_ ?_ (term n' (by omega)) step)
      step
    · exact moving.rel_setOperations (apply_moving true n' .queryTerm) _
    · exact .of_nearby (nearby.rel_setOperations (rules n' .queryTerm) _)
    · exact apply_moving true n' .queryTerm
    · exact .of_nearby (rules n' .queryTerm)
  refine body.bind fun body middle ⟨begins, noSpec⟩ => ?_
  have plain : body.Plain := fun spec same => absurd same (noSpec spec)
  have assembled (keys : List SortKey) (offset : Option UInt64) :
      assembleQuery [] body keys offset = ⟨[], body, keys, offset⟩ := by
    cases body with
    | spec spec => exact absurd rfl (noSpec spec)
    | _ => rfl
  have keys : Ensures (afterWord .ORDER [] (clause [] (sortKeys (apply true n)))) middle
      (fun keys rest => keys = [] ∧ rest = middle ∨
        firstKind middle = .keyword .ORDER ∧ keys ≠ []) good := by
    refine .afterWord (fun word inner split hkind => ?_) fun _ => .inl ⟨rfl, rfl⟩
    subst split
    have moves := moving.rel_oneOrMore .comma (apply_moving true n .sortKey)
    refine .orRecover ?_ (moving.rel_then (moving.rel_expectWord _) moves)
    refine .expectWord_bind fun _ inner _ _ => ?_
    refine Ensures.mono (.oneOrMore_ne_nil .comma nofun (apply_moving true n .sortKey)
      (.of_nearby (rules n .sortKey)) inner) ?_
    exact fun _ _ nonempty => .inr ⟨hkind, nonempty⟩
  have offsets (words : List Word) : Ensures (afterWord .OFFSET none (clause none (some <$> rowCount)))
      words (fun offset rest => offset = none ∧ rest = words ∨
        firstKind words = .keyword .OFFSET ∧ ∃ count, offset = some count) good := by
    refine .afterWord (fun word inner split hkind => ?_) fun _ => .inl ⟨rfl, rfl⟩
    subst split
    refine .orRecover (.map ?_) (moving.rel_map some moving.rel_rowCount)
    exact (Ensures.of_nearby nearby.rel_rowCount inner).mono fun count _ _ => .inr ⟨hkind, count, rfl⟩
  refine keys.bind fun keys middle' hkeys => (offsets middle').bind fun offset rest hoffset => .pure ?_
  rw [assembleQuery_words plain, List.map_nil, listClauseWords, List.nil_append, assembled]
  rcases hkeys with ⟨rfl, rfl⟩ | ⟨ordered, nonempty⟩
  · rcases hoffset with ⟨rfl, rfl⟩ | ⟨skipped, count, rfl⟩
    · have same (operand : Query) : (⟨[], body, [], none⟩ : Query) = operand.inParentheses ↔
          body = .nested operand := by
        simp [Query.inParentheses]
      simp only [same]
      exact (List.append_nil _).symm ▸ begins
    · refine begins.append (skipped ▸ by decide) (show TokenKind.keyword .OFFSET ∈ _ by decide) ?_
      simp [Query.inParentheses]
  · refine begins.append (ordered ▸ by decide) ?_ ?_
    · cases keys with
      | nil => exact absurd rfl nonempty
      | cons key keys => exact show TokenKind.keyword .ORDER ∈ _ by decide
    · simp [Query.inParentheses, nonempty]

/-- A query starts with `SELECT`, `WITH` or a parenthesis; in front of anything else, it stalls. -/
theorem query_stalls (allowance : Nat) {words : List Word}
    (word : startsQuery (firstKind words) ≠ true) (paren : firstKind words ≠ .leftParen) :
    Stalls (apply true (allowance + 3) .query) words := by
  have missing {keyword : Keyword} (h : startsQuery (.keyword keyword) = true) :
      firstKind words ≠ .keyword keyword := by
    intro same
    rw [same] at word
    exact word h
  have term : Stalls (apply true (allowance + 1) .queryTerm) words :=
    .apply (.bind_right (.check_false (missing rfl)) (.bind_right (.eat_false paren) (.fail words)))
  have body : Stalls (apply true (allowance + 2) .queryBody) words :=
    .apply (.bind_left (.bind_left term))
  exact .apply (.bind_right (.afterWord_none (missing rfl)) (.bind_left body))

/-- A query starts with `SELECT`, `WITH` or a parenthesis. -/
theorem query_starts {good : Word → Prop} (allowance : Nat) (words : List Word) :
    Ensures (apply true allowance .query) words (fun _ _ =>
      startsQuery (firstKind words) = true ∨ firstKind words = .leftParen) good := by
  by_cases word : startsQuery (firstKind words) = true
  · exact (Ensures.reads .query allowance words).mono fun _ _ _ => .inl word
  by_cases paren : firstKind words = .leftParen
  · exact (Ensures.reads .query allowance words).mono fun _ _ _ => .inr paren
  · exact (query_stalls 0 word paren).never allowance

/-- A query that starts with `SELECT` or `WITH` is not nothing but a query in parentheses. -/
theorem query_bare (allowance : Nat) {words : List Word} {good : Word → Prop}
    (start : startsQuery (firstKind words) = true) :
    Ensures (apply true allowance .query) words
      (fun query _ => ∀ inner : Query, query ≠ inner.inParentheses) good := by
  have rules (allowance : Nat) : ∀ rule, nearby.rel Eq (apply true allowance rule)
      (apply true allowance rule) := apply_nearby (Nat.le_refl allowance)
  refine .apply fun n hn => ?_
  have other {tables : List CommonTable} {body : QueryBody}
      (h : tables ≠ [] ∨ ∀ inner, body ≠ .nested inner) (keys : List SortKey)
      (offset : Option UInt64) (inner : Query) :
      assembleQuery tables body keys offset ≠ inner.inParentheses := by
    intro same
    cases body with
    | spec spec => simp [assembleQuery, Query.inParentheses] at same
    | setOperation op all left right => simp [assembleQuery, Query.inParentheses] at same
    | nested query =>
      simp only [assembleQuery, Query.inParentheses, Query.mk.injEq] at same
      exact h.elim (fun some => some same.1) fun bare => bare query rfl
  have keys (words : List Word) : Ensures (afterWord .ORDER [] (clause [] (sortKeys (apply true n))))
      words (fun _ _ => True) good :=
    .of_nearby (nearby.rel_afterWord _ _ (nearby.rel_clause _ (nearby.rel_then
      (nearby.rel_expectWord _) (nearby.rel_oneOrMore _ (rules n .sortKey))))) words
  have offsets (words : List Word) : Ensures (afterWord .OFFSET none (clause none (some <$> rowCount)))
      words (fun _ _ => True) good :=
    .of_nearby (nearby.rel_afterWord _ _ (nearby.rel_clause _ (nearby.rel_map some
      nearby.rel_rowCount))) words
  unfold startsQuery at start
  split at start
  · next hselect =>
    have body : Ensures (apply true n .queryBody) words (fun body _ => ∀ inner, body ≠ .nested inner)
        good := by
      refine .apply fun n' _ => ?_
      have term : Ensures (apply true n' .queryTerm) words
          (fun body _ => ∀ inner, body ≠ .nested inner) good := by
        refine .apply fun less _ => .reads_bind (.check_true hselect) ?_
        exact (Ensures.of_nearby (rules less .querySpec) words).bind fun _ _ _ =>
          .pure fun _ same => by cases same
      refine setOperations_ensures _ ?_ ?_ (setOperations_ensures _ ?_ ?_ term ?_) ?_
      · exact moving.rel_setOperations (apply_moving true n' .queryTerm) _
      · exact .of_nearby (nearby.rel_setOperations (rules n' .queryTerm) _)
      · exact apply_moving true n' .queryTerm
      · exact .of_nearby (rules n' .queryTerm)
      · exact fun _ _ _ _ _ _ _ _ _ same => by cases same
      · exact fun _ _ _ _ _ _ _ _ _ same => by cases same
    have noWith : firstKind words ≠ .keyword .WITH := by rw [hselect]; decide
    refine .reads_bind (.afterWord_none noWith) (body.bind fun body middle bare => ?_)
    exact (keys middle).bind fun _ rest _ => (offsets rest).bind fun _ _ _ =>
      .pure (other (.inr bare) _ _)
  · next hwith =>
    have tables : Ensures (afterWord .WITH [] (oneOrMore .comma (apply true n .commonTable))) words
        (fun tables _ => tables ≠ []) good := by
      refine .afterWord (fun _ inner _ _ => ?_) fun missing => absurd hwith missing
      exact .oneOrMore_ne_nil .comma (by decide) (apply_moving true n .commonTable)
        (.of_nearby (rules n .commonTable)) inner
    refine tables.bind fun tables middle some => ?_
    refine (Ensures.of_nearby (rules n .queryBody) middle).bind fun _ middle _ => ?_
    exact (keys middle).bind fun _ rest _ => (offsets rest).bind fun _ _ _ =>
      .pure (other (.inl some) _ _)
  · cases start

/-- Behind the parentheses that a query starts with stands `SELECT` or `WITH`. -/
theorem query_opens {good : Word → Prop} (allowance : Nat) (words : List Word)
    (behind : List TokenKind) :
    Ensures (apply true allowance .query) words (fun _ _ =>
      parenthesesOpenQuery (words.map (·.kind) ++ behind) = true) good := by
  induction allowance using Nat.strongRecOn generalizing words with
  | ind allowance ih =>
    refine .of_faced fun faced => ?_
    refine ((query_starts allowance words).and (Ensures.reads .query allowance words)).mono ?_
    rintro query rest ⟨starts, reads⟩
    have reads := reads allowance (Nat.le_refl _)
    rcases starts with word | paren
    · cases words with
      | nil => cases word
      | cons first inner =>
        have plain : first.kind ≠ .leftParen := by
          intro h
          rw [firstKind_cons, h] at word
          cases word
        rw [firstKind_cons] at word
        simp [parenthesesOpenQuery, plain, word]
    · obtain ⟨word, inner, rfl, opening⟩ := exists_cons_of_firstKind (by decide) paren
      obtain ⟨less, operand, closing, _, smaller, reads', _⟩ :=
        (query_begins allowance opening).of_reads reads faced
      have inside := (ih less smaller inner).of_reads reads' faced.tail
      simpa [parenthesesOpenQuery, opening] using inside

/-! ### Queries as expressions -/

section

variable {opening closing : Word} {words rest : List Word} {query : Query} {expr : Expr}
  {allowance : Nat}

/-- What ends an expression wherever it stands ends every run of operators. -/
theorem stops_of_ends (h : endsExpression (firstKind words) = true) (level : Nat) :
    Stops level words := by
  have follows : Follow [] words := .of_ends h
  exact follows.stops level fun _ _ => nofun

/-- An expression may be a parenthesis. -/
theorem reads_expression_of_parenthesis (hopening : opening.kind = .leftParen)
    (ends : endsExpression (firstKind rest) = true)
    (h : Reads (parenthesis true (apply true allowance)) (opening :: words) expr rest) :
    Reads (apply true (allowance + 2) .expression) (opening :: words) expr rest := by
  have first : Reads (operand true (apply true allowance)) (opening :: words) expr rest := by
    refine (Reads.currentKind _).bind ?_
    rw [firstKind_cons, hopening]
    refine .current_kind_bind fun token hkind => ?_
    rw [firstKind_cons, hopening] at hkind
    rw [Token.literal?_eq_none (hkind ▸ by decide), hkind]
    exact h
  refine .apply (.apply (first.bind ?_))
  exact (Repeats.refl expr rest).iterate (reads_operatorStep_done expr (stops_of_ends ends 0))

/-- A query in parentheses is read as a scalar subquery. -/
theorem reads_scalarSubquery (hopening : opening.kind = .leftParen)
    (hclosing : closing.kind = .rightParen)
    (h : Reads (apply true allowance .query) words query (closing :: rest)) :
    Reads (apply true (allowance + 1) .scalarSubquery) (opening :: words) (.subquery query) rest :=
  .apply (.map Expr.subquery (.expect_bind hopening (h.bind (.expect_bind hclosing
    (.pure query rest)))))

/-- An expression in parentheses is read as such. -/
theorem reads_parenthesized (hopening : opening.kind = .leftParen)
    (hclosing : closing.kind = .rightParen)
    (h : Reads (apply true allowance .expression) words expr (closing :: rest)) :
    Reads (apply true (allowance + 1) .parenthesized) (opening :: words) (.paren expr) rest :=
  .apply (.map Expr.paren (.expect_bind hopening (h.bind (.expect_bind hclosing
    (.pure expr rest)))))

/-- An expression in front of anything but a closing parenthesis is no expression in parentheses. -/
theorem stalls_parenthesized (hopening : opening.kind = .leftParen)
    (h : Reads (apply true allowance .expression) words expr rest)
    (open' : firstKind rest ≠ .rightParen) :
    Stalls (apply true (allowance + 1) .parenthesized) (opening :: words) :=
  .apply (.bind_left (.expect_bind hopening (.bind_right h (.bind_left (.expect open')))))

/-- A trial stalls where the rule that it tries does. -/
theorem stalls_trial (h : Stalls (apply true allowance .parenthesized) words) :
    Stalls (apply true (allowance + 1) .parenthesizedTrial) words :=
  .apply h

/-- Behind an operand of a query that ends at a closing parenthesis, there is that parenthesis, or the
query goes on; an expression ends there in any case. -/
theorem ends_of_begins {alone further : Prop} {tail behind : List Word}
    (hclosing : closing.kind = .rightParen)
    (h : alone ∧ tail = [] ∧ closing :: rest = behind ∨
      further ∧ firstKind tail ∈ afterOperand ∧ firstKind behind ∈ afterOperand) :
    endsExpression (firstKind behind) = true := by
  rcases h with ⟨_, _, rfl⟩ | ⟨_, _, goesOn⟩
  · rw [firstKind_cons, hclosing]
    rfl
  · have ends : ∀ kind ∈ afterOperand, endsExpression kind = true := by decide
    exact ends _ goesOn

/-- What a query in parentheses is read as: an expression in parentheses if the query is nothing but
a query in parentheses itself, and otherwise a subquery. -/
inductive Query.StandsAs : Query → Expr → Prop
  | subquery {query : Query} (bare : ∀ inner, query ≠ inParentheses inner) :
      StandsAs query (.subquery query)
  | paren {query : Query} {expr : Expr} : StandsAs query expr →
      StandsAs query.inParentheses (.paren expr)

/-- A query in parentheses and what it is read as have the same words. -/
theorem Query.StandsAs.words_eq (h : query.StandsAs expr) :
    expr.words false = enclosed (query.words false) := by
  induction h with
  | subquery => rfl
  | paren _ ih =>
    rw [Expr.words, ih]
    simp [inParentheses, Query.words, QueryBody.words, listClauseWords, offsetWords, clauseWords,
      CommonTable.wordsList, SortKey.wordsList]

/-- A query in parentheses is read as an expression, wherever rules may nest deep enough. -/
theorem reads_parenthesizedQuery (hopening : opening.kind = .leftParen)
    (hclosing : closing.kind = .rightParen)
    (h : Reads (apply true allowance .query) words query (closing :: rest))
    (ends : endsExpression (firstKind rest) = true) :
    ∃ more expr, Reads (apply true more .expression) (opening :: words) expr rest ∧
      query.StandsAs expr := by
  induction allowance using Nat.strongRecOn generalizing opening closing words rest query with
  | ind allowance ih =>
    have subquery := reads_scalarSubquery hopening hclosing h
    rcases (query_starts allowance words).of_reads h (.any words) with word | paren
    · refine ⟨allowance + 3, .subquery query,
        reads_expression_of_parenthesis hopening ends ?_, .subquery ?_⟩
      · refine (Reads.nextKind _).bind ?_
        rw [secondKind_cons, if_pos word]
        exact subquery
      · exact (query_bare allowance word).of_reads h (.any words)
    · obtain ⟨opening', inner, rfl, hopening'⟩ := exists_cons_of_firstKind (by nofun) paren
      have opens := (query_opens allowance _ [.eof]).of_reads h (.any _)
      obtain ⟨less, operand, closing', behind, smaller, hoperand, hclosing', tail, _, hbehind⟩ :=
        (query_begins allowance hopening').of_reads h (.any _)
      obtain ⟨more, expr, hexpr, stands⟩ :=
        ih less smaller hopening' hclosing' hoperand (ends_of_begins hclosing hbehind)
      -- deep enough for both readings of the parenthesis
      let deep := max more allowance
      have hexpr := hexpr.of_le (Nat.le_max_left more allowance)
      have either {expr : Expr} (h : Reads (eitherParenthesis (apply true (deep + 2)))
          (opening :: opening' :: inner) expr rest) :
          Reads (apply true (deep + 4) .expression) (opening :: opening' :: inner) expr rest := by
        refine reads_expression_of_parenthesis hopening ends ?_
        refine (Reads.nextKind _).bind ?_
        rw [secondKind_cons, firstKind_cons, hopening', if_neg (by decide)]
        refine (Reads.kindsAhead _).bind ?_
        rw [if_pos]
        · exact h
        · simpa [parenthesesOpenQuery, hopening] using opens
      rcases hbehind with ⟨alone, _, rfl⟩ | ⟨bare, _, goesOn⟩
      · refine ⟨deep + 4, .paren expr, either (.firstOf_left ?_), alone ▸ stands.paren⟩
        exact .apply (reads_parenthesized hopening hclosing hexpr)
      · have open' : firstKind behind ≠ .rightParen := by
          intro h
          rw [h] at goesOn
          exact absurd goesOn (by decide)
        refine ⟨deep + 4, .subquery query, either (.firstOf_right ?_ ?_), .subquery bare⟩
        · exact (stalls_trial (stalls_parenthesized hopening hexpr open')).fails rfl
        · refine .apply (reads_scalarSubquery hopening hclosing (h.of_le ?_))
          exact Nat.le_max_right more allowance

/-- An expression stalls where it starts with an operand that is no literal and stalls. -/
theorem expression_stalls (noPrefix : UnaryOp.ofToken? (firstKind words) = none)
    (noLiteral : firstKind words ∉ literalKinds)
    (h : Stalls (primaryOf (apply true allowance) (firstKind words)) words) :
    Stalls (apply true (allowance + 2) .expression) words := by
  refine .apply (.apply (.bind_left (.bind_right (.currentKind words) ?_)))
  rw [noPrefix]
  refine .current_kind_bind fun token hkind => ?_
  rw [Token.literal?_eq_none (hkind ▸ noLiteral), hkind]
  exact h

/-- No expression starts with `SELECT` or `WITH`. -/
theorem expression_stalls_query (h : startsQuery (firstKind words) = true) (allowance : Nat) :
    Stalls (apply true (allowance + 2) .expression) words := by
  have plain : UnaryOp.ofToken? (firstKind words) = none ∧ firstKind words ∉ literalKinds ∧
      primaryOf (apply true allowance) (firstKind words) = failExpecting operandStart := by
    unfold startsQuery at h
    split at h
    · next hkind => rw [hkind]; exact ⟨rfl, by decide, rfl⟩
    · next hkind => rw [hkind]; exact ⟨rfl, by decide, rfl⟩
    · cases h
  obtain ⟨noPrefix, noLiteral, noOperand⟩ := plain
  refine expression_stalls noPrefix noLiteral ?_
  rw [noOperand]
  exact .failExpecting operandStart words

/-- A parenthesis that is no expression in the source is none in the written words. -/
theorem trialFails (keeps : ∀ less < allowance, KeepsRules (apply true less))
    (fails : Fails (apply true allowance .parenthesizedTrial) words) :
    Ensures (apply true allowance .subqueryTrial) words fun expr _ => ∀ behind,
      Fails (apply true allowance .parenthesizedTrial) (expr.words false ++ behind) := by
  refine .of_faced fun faced => .apply fun n hn => .apply fun m hm => .map ?_
  subst hn hm
  refine .expect_bind (by decide) fun opening inner split hopening => ?_
  subst split
  have kept := query_kept (keeps m (by omega)) inner
  refine (kept.and (Ensures.reads .query m inner)).bind ?_
  rintro query middle ⟨⟨_, start⟩, reads⟩
  refine .expect_bind (by decide) fun closing rest split hclosing => .pure fun behind => ?_
  subst split
  have reads := reads m (Nat.le_refl m)
  -- the source does not nest too deep for the trial
  have alive : ¬Aborts (apply true m .expression) inner := by
    intro aborts
    have paren : Aborts (apply true (m + 1) .parenthesized) (opening :: inner) :=
      .apply_succ (.bind_left (.expect_bind hopening aborts.bind_left))
    have trial : Aborts (apply true (m + 2) .parenthesizedTrial) (opening :: inner) :=
      .apply_succ paren
    exact trial.not_stalls fails.stalls
  refine (stalls_trial ?_).fails rfl
  have hwords : (Expr.subquery query).words false ++ behind = TokenKind.leftParen.word ::
      (query.words false ++ TokenKind.rightParen.word :: behind) := by
    rw [Expr.words, enclosed, List.cons_append, List.append_assoc, List.singleton_append]
  rw [hwords]
  rcases (query_starts m inner).of_reads reads faced.tail with word | paren
  · -- no expression starts like the query
    obtain ⟨less, rfl⟩ : ∃ less, m = less + 2 := by
      rcases m with _ | _ | less
      · exact absurd (.apply_zero _ _) alive
      · exact absurd (.apply_succ (.apply_zero _ _)) alive
      · exact ⟨less, rfl⟩
    have start' : startsQuery (firstKind (query.words false ++ TokenKind.rightParen.word :: behind)) =
        true := by
      rw [start.firstKind_append, start.startsQuery_iff]
      exact word
    exact .apply (.bind_left (.expect_bind rfl (.bind_left (expression_stalls_query start' less))))
  · obtain ⟨opening', inner, rfl, hopening'⟩ := exists_cons_of_firstKind (by decide) paren
    obtain ⟨less, operand, closing', behind', smaller, hoperand, hclosing', tail, hquery, hbehind⟩ :=
      (query_begins m hopening').of_reads reads faced.tail
    obtain ⟨more, expr, hexpr, stands⟩ := reads_parenthesizedQuery hopening' hclosing' hoperand
      (ends_of_begins hclosing hbehind)
    have hexpr := (hexpr.settled m).resolve_right alive
    rcases hbehind with ⟨_, _, rfl⟩ | ⟨_, goesOn, _⟩
    · -- the trial would have succeeded in the source
      have trial : Reads (apply true (m + 2) .parenthesizedTrial) (opening :: opening' :: inner)
          (.paren expr) rest :=
        .apply (reads_parenthesized hopening hclosing hexpr)
      exact absurd fails.stalls trial.not_stalls
    · have kept := ((expression_kept (keeps m (by omega)) _).of_reads hexpr faced.tail).1
      rw [hquery, ← stands.words_eq, List.append_assoc]
      cases tail with
      | nil => exact absurd goesOn (by decide)
      | cons next tail =>
        have ends : ∀ kind ∈ afterOperand, endsExpression kind = true ∧ kind ≠ .rightParen := by
          decide
        have again := kept.reads (next :: tail ++ TokenKind.rightParen.word :: behind)
          (ends _ goesOn).1
        exact stalls_parenthesized rfl again (ends _ goesOn).2

end

end Adql
