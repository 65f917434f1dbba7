import Adql.Proofs.Expected.Definite
import Adql.Proofs.Expected.Rules
import Adql.Proofs.Grammar.Lookahead
import Adql.Proofs.RoundTrip.Parentheses

/-!
# Parentheses

What starts with a parenthesis is an expression or a query, and the words behind all opening
parentheses may decide.  If the front has such a word, it does.  If there are only opening parentheses
in the front, `SELECT`, `WITH` and one more parenthesis can follow them (`offers_parenthesis`), and in
front of anything else an expression is looked for (`honest_parenthesis`).
-/

namespace Adql

open Adql.Parser Adql.Grammar

/-! ### Queries -/

/-- The kinds that can start a query. -/
def queryStart : List TokenKind :=
  [.keyword .SELECT, .keyword .WITH, .leftParen]

/-- In front of any other kind, there is no operand of a set operator. -/
theorem stalls_queryTerm {apply : (rule : Rule) → Parser rule.Result} {words : List Word}
    (others : firstKind words ∉ queryStart) : Stalls (queryTerm apply) words := by
  simp only [queryStart, List.mem_cons, List.not_mem_nil, or_false, not_or] at others
  obtain ⟨noSelect, -, noParen⟩ := others
  exact .bind_right (.check_false noSelect) (.bind_right (.eat_false noParen) (.fail words))

/-- Where there is no operand of a set operator and no named query, there is no query. -/
theorem stalls_query_of_term {n : Nat} {words : List Word}
    (h : Stalls (queryTerm (Grammar.apply true n)) words) (noWith : firstKind words ≠ .keyword .WITH) :
    Stalls (Grammar.apply true (n + 3) .query) words :=
  .apply (.bind_right (.afterWord_none noWith) (.bind_left (.apply
    (.bind_left (.bind_left (.apply h))))))

/-- In front of any other kind, there is no query. -/
theorem stalls_query {n : Nat} {words : List Word} (others : firstKind words ∉ queryStart)
    (deep : 3 ≤ n) : Stalls (Grammar.apply true n .query) words := by
  obtain ⟨less, rfl⟩ : ∃ less, n = less + 3 := ⟨n - 3, by omega⟩
  have noWith : firstKind words ≠ .keyword .WITH := fun same => others (same ▸ by decide)
  exact stalls_query_of_term (stalls_queryTerm others) noWith

/-- Behind opening parentheses, in front of any other kind, there is no query. -/
theorem stalls_query_opened {n : Nat} {front behind : List Word}
    (opened : ∀ word ∈ front, word.kind = .leftParen) (others : firstKind behind ∉ queryStart)
    (deep : 3 * front.length + 3 ≤ n) : Stalls (Grammar.apply true n .query) (front ++ behind) := by
  induction front generalizing n with
  | nil => exact stalls_query others (Nat.le_trans (Nat.le_add_left _ _) deep)
  | cons word front ih =>
    obtain ⟨less, rfl⟩ : ∃ less, n = less + 3 := ⟨n - 3, by omega⟩
    obtain ⟨opening, opened⟩ := List.forall_mem_cons.mp opened
    rw [List.length_cons] at deep
    have inner := ih (n := less) opened (by omega)
    have differs {keyword : Keyword} : firstKind (word :: front ++ behind) ≠ .keyword keyword :=
      fun same => nomatch opening.symm.trans same
    exact stalls_query_of_term (.bind_right (.check_false differs) (.bind_right (.eat_true opening)
      inner.bind_left)) differs

/-- Any kind that starts a query can be followed by the rest of a query. -/
theorem closes_queryStart {n : Nat} {kind : TokenKind} (deep : 12 ≤ n) (start : kind ∈ queryStart) :
    Closes {kind} queryEnds (Grammar.apply true n .query) := by
  obtain ⟨less, rfl⟩ : ∃ less, n = less + 3 := ⟨n - 3, by omega⟩
  simp only [queryStart, List.mem_cons, List.not_mem_nil, or_false] at start
  rcases start with rfl | rfl | rfl
  · exact closes_apply .query (less + 3) (by simp only [Rule.height]; omega)
  · have body := closes_apply .queryBody (less + 2) (by simp only [Rule.height]; omega)
    have table := closes_apply .commonTable (less + 2) (by simp only [Rule.height]; omega)
    exact .apply (closes_queryWith body (table.mono subset_rfl (Set.subset_univ _)))
  · have inner := closes_apply .query less (by simp only [Rule.height]; omega)
    have body := closes_queryBody (.apply (closes_nestedTerm inner))
    exact .apply (closes_query (.apply body) (by decide))

/-! ### The words that decide -/

/-- What starts with a parenthesis, told by the kind behind the parenthesis and by whether the
parentheses ahead end in front of a query. -/
def parenthesisOf (apply : (rule : Rule) → Parser rule.Result) (next : TokenKind) (opensQuery : Bool) :
    Parser Expr :=
  if startsQuery next then apply .scalarSubquery
  else if next = .leftParen && opensQuery then eitherParenthesis apply
  else apply .parenthesized

/-- Do the parentheses in front of the words end in front of a query? -/
def openQuery (words : List Word) : Bool :=
  parenthesesOpenQuery (words.map (·.kind) ++ [.eof])

/-- The words ahead tell what starts with a parenthesis. -/
theorem parenthesis_eq_of_faces {apply : (rule : Rule) → Parser rule.Result} {words : List Word}
    {session : Session} {good : Word → Prop} (faces : session.Faces words .adql good) :
    parenthesis true apply session =
      parenthesisOf apply (secondKind words) (openQuery words) session := by
  rw [parenthesis_run, faces.next_kind, faces.kindsAhead, parenthesisOf, openQuery]
  split
  · rfl
  · split
    · rfl
    · rfl

/-- What the chosen parser reads, the parenthesis reads. -/
theorem Reads.parenthesis {apply : (rule : Rule) → Parser rule.Result} {words rest : List Word}
    {expr : Expr} (h : Reads (parenthesisOf apply (secondKind words) (openQuery words)) words expr rest) :
    Reads (Grammar.parenthesis true apply) words expr rest :=
  fun good session faces => parenthesis_eq_of_faces faces ▸ h good session faces

/-- Where the chosen parser stalls, the parenthesis stalls. -/
theorem Stalls.parenthesis {apply : (rule : Rule) → Parser rule.Result} {words : List Word}
    (h : Stalls (parenthesisOf apply (secondKind words) (openQuery words)) words) :
    Stalls (Grammar.parenthesis true apply) words :=
  fun good session faces => parenthesis_eq_of_faces faces ▸ h good session faces

/-- A parenthesis is passed. -/
theorem openQuery_cons_of_eq {word : Word} (opens : word.kind = .leftParen) (words : List Word) :
    openQuery (word :: words) = openQuery words := by
  unfold openQuery parenthesesOpenQuery
  rw [List.map_cons, List.cons_append, List.dropWhile_cons, if_pos (decide_eq_true opens)]

/-- Any other word decides. -/
theorem openQuery_of_ne {words : List Word} (other : firstKind words ≠ .leftParen) :
    openQuery words = startsQuery (firstKind words) := by
  unfold openQuery parenthesesOpenQuery
  cases words with
  | nil => rfl
  | cons word words =>
    rw [firstKind_cons] at other
    rw [List.map_cons, List.cons_append, List.dropWhile_cons, if_neg (by simpa using other)]
    rfl

/-- Behind opening parentheses, the first other word decides. -/
theorem openQuery_opened {front : List Word} (opened : ∀ word ∈ front, word.kind = .leftParen)
    (behind : List Word) : openQuery (front ++ behind) = openQuery behind := by
  induction front with
  | nil => rfl
  | cons word front ih =>
    obtain ⟨opens, opened⟩ := List.forall_mem_cons.mp opened
    rw [List.cons_append, openQuery_cons_of_eq opens, ih opened]

/-- If there is another word in the front, what stands behind the front does not matter. -/
theorem openQuery_append {front : List Word} (other : ∃ word ∈ front, word.kind ≠ .leftParen)
    (behind : List Word) : openQuery (front ++ behind) = openQuery front := by
  induction front with
  | nil => exact absurd other (by simp)
  | cons word front ih =>
    by_cases opens : word.kind = .leftParen
    · obtain ⟨word', found, differs⟩ := other
      have later : word' ∈ front := (List.mem_cons.mp found).resolve_left fun same =>
        differs (same ▸ opens)
      rw [List.cons_append, openQuery_cons_of_eq opens, openQuery_cons_of_eq opens,
        ih ⟨word', later, differs⟩]
    · have alone : openQuery (word :: front) = startsQuery word.kind := openQuery_of_ne opens
      have followed : openQuery (word :: (front ++ behind)) = startsQuery word.kind :=
        openQuery_of_ne opens
      rw [List.cons_append, followed, alone]

/-- In front of any kind that does not start a query, what starts with a parenthesis is an expression
in parentheses. -/
theorem parenthesisOf_opened {apply : (rule : Rule) → Parser rule.Result} {front behind : List Word}
    (opened : ∀ word ∈ front, word.kind = .leftParen) (nonempty : front ≠ [])
    (others : firstKind behind ∉ queryStart) :
    parenthesisOf apply (secondKind (front ++ behind)) (openQuery (front ++ behind)) =
      apply .parenthesized := by
  have starts : ∀ kind ∈ TokenKind.all, kind ∉ queryStart →
      startsQuery kind = false ∧ kind ≠ .leftParen := by decide
  obtain ⟨noQuery, noParen⟩ := starts _ (TokenKind.mem_all _) others
  have noQueryAhead : openQuery (front ++ behind) = false := by
    rw [openQuery_opened opened, openQuery_of_ne noParen, noQuery]
  rw [parenthesisOf, noQueryAhead, Bool.and_false, if_neg Bool.false_ne_true, if_neg]
  match front, nonempty with
  | [word], _ =>
    rw [List.singleton_append, secondKind_cons, noQuery]
    exact Bool.false_ne_true
  | word :: next :: front, _ =>
    have opens : next.kind = .leftParen := opened next (by simp)
    rw [List.cons_append, List.cons_append, secondKind_cons, firstKind_cons, opens]
    exact Bool.false_ne_true

/-! ### Opening parentheses -/

section

variable {n : Nat} {front : List Word}

/-- Opening parentheses alone are no expression in parentheses. -/
theorem stalls_parenthesized_opened (opened : ∀ word ∈ front, word.kind = .leftParen)
    (nonempty : front ≠ []) (deep : 3 * front.length ≤ n) :
    Stalls (Grammar.apply true n .parenthesized) front := by
  induction front generalizing n with
  | nil => exact absurd rfl nonempty
  | cons word front ih =>
    obtain ⟨opens, opened⟩ := List.forall_mem_cons.mp opened
    rw [List.length_cons] at deep
    obtain ⟨less, rfl⟩ : ∃ less, n = less + 3 := ⟨n - 3, by omega⟩
    have inner : UnaryOp.ofToken? (firstKind front) = none ∧ firstKind front ∉ literalKinds ∧
        Stalls (primaryOf (Grammar.apply true less) (firstKind front)) front := by
      cases front with
      | nil => exact ⟨rfl, by decide, .failExpecting operandStart []⟩
      | cons next front =>
        have again := ih (n := less) opened (List.cons_ne_nil _ _) (by omega)
        have noQuery : firstKind [] ∉ queryStart := by decide
        have decided : parenthesisOf (Grammar.apply true less) (secondKind ((next :: front) ++ []))
            (openQuery ((next :: front) ++ [])) = Grammar.apply true less .parenthesized :=
          parenthesisOf_opened opened (List.cons_ne_nil _ _) noQuery
        rw [List.append_nil] at decided
        rw [firstKind_cons, opened next List.mem_cons_self]
        exact ⟨rfl, by decide, .parenthesis (decided ▸ again)⟩
    obtain ⟨noPrefix, noLiteral, stalls⟩ := inner
    exact .apply (.bind_left (.expect_bind opens (.bind_left (expression_stalls noPrefix noLiteral stalls))))

/-- What starts with a parenthesis and can be read can be put in parentheses. -/
theorem reads_parenthesis_again {opening inner closing : Word} {words behind : List Word} {expr : Expr}
    (opens : opening.kind = .leftParen) (opens' : inner.kind = .leftParen)
    (closes : closing.kind = .rightParen)
    (h : Reads (parenthesis true (Grammar.apply true n)) (inner :: words) expr (closing :: behind)) :
    Reads (parenthesis true (Grammar.apply true (n + 4))) (opening :: inner :: words) (.paren expr)
      behind := by
  have ends : endsExpression (firstKind (closing :: behind)) = true := by
    rw [firstKind_cons, closes]
    rfl
  have enclosed : Reads (Grammar.apply true (n + 3) .parenthesized) (opening :: inner :: words)
      (.paren expr) behind :=
    reads_parenthesized opens closes (reads_expression_of_parenthesis opens' ends h)
  refine .parenthesis ?_
  unfold parenthesisOf
  rw [secondKind_cons, firstKind_cons, opens', if_neg nofun]
  split
  · exact .firstOf_left (.apply enclosed)
  · exact enclosed.of_le (Nat.le_succ _)

/-- A name in parentheses is read. -/
theorem reads_parenthesis_name {opening closing : Word} (opens : opening.kind = .leftParen)
    (closes : closing.kind = .rightParen) (behind : List Word) :
    Reads (parenthesis true (Grammar.apply true (n + 3))) (opening :: nameWord :: closing :: behind)
      (.paren nameExpr) behind := by
  have ends : firstKind (closing :: behind) ∈ runEnds 0 := by
    rw [firstKind_cons, closes]
    exact mem_runEnds_of_ends rfl 0
  refine .parenthesis ?_
  have decided : parenthesisOf (Grammar.apply true (n + 3))
      (secondKind (opening :: nameWord :: closing :: behind))
      (openQuery (opening :: nameWord :: closing :: behind)) =
        Grammar.apply true (n + 3) .parenthesized := rfl
  rw [decided]
  exact reads_parenthesized opens closes (reads_nameExpression ends)

/-- Another parenthesis and a name can follow an opening parenthesis. -/
theorem offers_parenthesis_name {opening : Word} (opens : opening.kind = .leftParen) :
    Offers Set.univ (parenthesis true (Grammar.apply true (n + 7))) [opening] .leftParen := by
  have closing : TokenKind.rightParen.word.kind = .rightParen := rfl
  refine ⟨TokenKind.leftParen.word, [nameWord, TokenKind.rightParen.word, TokenKind.rightParen.word],
    .paren (.paren nameExpr), rfl, ?_, fun behind _ => ?_⟩
  · simp only [List.forall_mem_cons]
    exact ⟨rfl, spelled_nameWord, rfl, rfl, List.forall_mem_nil _⟩
  · exact reads_parenthesis_again opens rfl closing (reads_parenthesis_name rfl closing _)

/-- The words that start a query can follow an opening parenthesis. -/
theorem offers_parenthesis_query {opening : Word} (opens : opening.kind = .leftParen) {kind : TokenKind}
    (start : kind ∈ queryStart) (noParen : kind ≠ .leftParen) (deep : 12 ≤ n) :
    Offers Set.univ (parenthesis true (Grammar.apply true (n + 1))) [opening] kind := by
  have words : ∀ kind ∈ queryStart, kind ≠ .leftParen →
      startsQuery kind = true ∧ TokenKind.rightParen ≠ kind := by decide
  obtain ⟨isWord, differs⟩ := words kind start noParen
  obtain ⟨word, more, query, first, spelled, reads⟩ :=
    (closes_queryStart deep start).offers differs List.mem_cons_self
  have written : ∀ next ∈ (word :: more) ++ [TokenKind.rightParen.word], next.Spelled :=
    List.forall_mem_append.mpr ⟨spelled, List.forall_mem_singleton.mpr rfl⟩
  refine ⟨word, more ++ [TokenKind.rightParen.word], .subquery query, first, written, fun behind _ => ?_⟩
  rw [List.append_assoc]
  refine .parenthesis ?_
  rw [parenthesisOf, List.singleton_append, secondKind_cons, firstKind_cons, first, if_pos isWord]
  exact reads_scalarSubquery opens rfl (reads (TokenKind.rightParen.word :: behind) List.mem_cons_self)

/-- What can follow opening parentheses can follow one more of them. -/
theorem Offers.parenthesis_again {opening inner : Word} {kind : TokenKind}
    (opens : opening.kind = .leftParen) (opens' : inner.kind = .leftParen)
    (h : Offers Set.univ (parenthesis true (Grammar.apply true n)) (inner :: front) kind) :
    Offers Set.univ (parenthesis true (Grammar.apply true (n + 4))) (opening :: inner :: front) kind := by
  obtain ⟨word, more, expr, first, spelled, reads⟩ := h
  have written : ∀ next ∈ (word :: more) ++ [TokenKind.rightParen.word], next.Spelled :=
    List.forall_mem_append.mpr ⟨spelled, List.forall_mem_singleton.mpr rfl⟩
  refine ⟨word, more ++ [TokenKind.rightParen.word], .paren expr, first, written, fun behind _ => ?_⟩
  rw [List.append_assoc]
  exact reads_parenthesis_again opens opens' rfl (reads (TokenKind.rightParen.word :: behind) trivial)

/-- Behind opening parentheses, any kind that starts a query can be followed by the rest of an
expression. -/
theorem offers_parenthesis {kind : TokenKind} (opened : ∀ word ∈ front, word.kind = .leftParen)
    (nonempty : front ≠ []) (start : kind ∈ queryStart) (deep : 12 + 4 * front.length ≤ n) :
    Offers Set.univ (parenthesis true (Grammar.apply true n)) front kind := by
  induction front generalizing n with
  | nil => exact absurd rfl nonempty
  | cons opening front ih =>
    obtain ⟨opens, opened⟩ := List.forall_mem_cons.mp opened
    rw [List.length_cons] at deep
    cases front with
    | nil =>
      by_cases paren : kind = .leftParen
      · obtain ⟨less, rfl⟩ : ∃ less, n = less + 7 := ⟨n - 7, by omega⟩
        exact paren ▸ offers_parenthesis_name opens
      · obtain ⟨less, rfl⟩ : ∃ less, n = less + 1 := ⟨n - 1, by omega⟩
        exact offers_parenthesis_query opens start paren (by omega)
    | cons inner front =>
      obtain ⟨less, rfl⟩ : ∃ less, n = less + 4 := ⟨n - 4, by omega⟩
      have offers := ih (n := less) opened (List.cons_ne_nil _ _) (by omega)
      exact offers.parenthesis_again opens (opened inner List.mem_cons_self)

end

/-! ### What starts with a parenthesis -/

/-- What a rule reads, its body reads. -/
theorem Reads.body {rule : Rule} {allowance : Nat} {words rest : List Word} {a : rule.Result}
    (h : Reads (Grammar.apply true (allowance + 1) rule) words a rest) :
    Reads (Grammar.body true (Grammar.apply true allowance) rule) words a rest := by
  have inner : Ensures (Grammar.body true (Grammar.apply true allowance) rule) words
      (Reads (Grammar.body true (Grammar.apply true allowance) rule) words) fun _ => True :=
    .reads_of_nearby (nearby.rel_body (nearby_apply (Nat.le_refl allowance)) true rule) words
  exact inner.apply_succ.of_reads h (.any words)

/-- What is tried is read without the trial. -/
theorem Reads.of_trial {n : Nat} {words rest : List Word} {expr : Expr}
    (h : Reads (Grammar.apply true (n + 1) .parenthesizedTrial) words expr rest) :
    Reads (Grammar.apply true (n + 1) .parenthesized) words expr rest := by
  have inner : Reads (Grammar.apply true n .parenthesized) words expr rest := h.body
  exact inner.of_le (Nat.le_succ n)

section

variable {size rank n : Nat} {front : List Word} (h : HelpfulRules size rank n) (ranks : 2 < rank)

include h ranks

/-- Whatever the words ahead tell, what is chosen is helpful. -/
theorem helpful_parenthesisOf (next : TokenKind) (opensQuery : Bool) :
    Helpful size Set.univ (parenthesisOf (Grammar.apply true n) next opensQuery) := by
  have deep := h.deep
  obtain ⟨less, rfl⟩ : ∃ less, n = less + 2 := ⟨n - 2, by omega⟩
  have rule (rule : Rule) (rank : rule.rank ≤ 2) (noCall : rule.isCall = false) :
      Helpful size rule.follow (Grammar.apply true (less + 2) rule) :=
    (h.here rule (Nat.lt_of_le_of_lt rank ranks)).helpful noCall
  unfold parenthesisOf
  split
  · exact rule .scalarSubquery (by decide) rfl
  · split
    · exact (rule .parenthesizedTrial (by decide) rfl).firstOf rfl (definite_parenthesizedTrial less)
        (rule .subqueryTrial (by decide) rfl)
    · exact rule .parenthesized (by decide) rfl

/-- Behind opening parentheses, a query in parentheses notes only what starts a query. -/
theorem gets_subquery_opened (opened : ∀ word ∈ front, word.kind = .leftParen) (nonempty : front ≠ [])
    (few : front.length < size) {session : Session} {behind : List Word} {position : Nat}
    (splits : session.Splits front behind position) :
    Gets (· ∈ queryStart) none behind position session
        (Grammar.apply true n .scalarSubquery session) ∧
      Gets (· ∈ queryStart) none behind position session
        (Grammar.apply true n .subqueryTrial session) := by
  have deep := h.deep
  have noEnd : TokenKind.eof ∉ queryStart := by decide
  obtain ⟨word, front, rfl⟩ := List.exists_cons_of_ne_nil nonempty
  obtain ⟨opens, opened⟩ := List.forall_mem_cons.mp opened
  rw [List.length_cons] at few
  have stalls {less : Nat} (enough : 3 * front.length + 3 ≤ less) (behind : List Word)
      (others : firstKind behind ∉ queryStart) :
      Stalls (Grammar.apply true (less + 1) .scalarSubquery) (word :: front ++ behind) :=
    .apply (.bind_left (.expect_bind opens (.bind_left (stalls_query_opened opened others enough))))
  obtain ⟨less, rfl⟩ : ∃ less, n = less + 2 := ⟨n - 2, by omega⟩
  constructor
  · obtain ⟨outcome, honest⟩ :=
      (h.here .scalarSubquery (Nat.lt_trans (by decide) ranks)).helpful rfl |>.honest (word :: front) few
    exact honest.gets_of_stalls (stalls (by omega)) noEnd (Set.mem_univ .comma) splits
  · obtain ⟨outcome, honest⟩ := (h.here .subqueryTrial ranks).helpful rfl |>.honest (word :: front) few
    refine honest.gets_of_stalls (fun behind others => ?_) noEnd (Set.mem_univ .comma) splits
    exact .apply (stalls (by omega) behind others)

/-- Behind opening parentheses, what starts with them is an expression, and what starts a query can
follow as well. -/
theorem honest_parenthesis_opened (opened : ∀ word ∈ front, word.kind = .leftParen)
    (nonempty : front ≠ []) (few : front.length < size) :
    Honest Set.univ (parenthesis true (Grammar.apply true n)) front none := by
  have deep := h.deep
  have rank {rule : Rule} (low : rule.rank ≤ 2) : rule.rank < rank := Nat.lt_of_le_of_lt low ranks
  obtain ⟨outcome, paren⟩ :=
    (h.here .parenthesized (rank (by decide))).helpful rfl |>.honest front few
  obtain ⟨outcome', trial⟩ :=
    (h.here .parenthesizedTrial (rank (by decide))).helpful rfl |>.honest front few
  obtain ⟨less, rfl⟩ : ∃ less, n = less + 1 := ⟨n - 1, by omega⟩
  obtain rfl := paren.none_of_stalls (stalls_parenthesized_opened opened nonempty (by omega))
  obtain rfl := trial.none_of_stalls
    (.apply (stalls_parenthesized_opened opened nonempty (by omega)))
  -- what can follow a trial can follow the rule that is tried
  have tried (kind : TokenKind) (offers : Offers Set.univ
      (Grammar.apply true (less + 1) .parenthesizedTrial) front kind) :
      Offers Set.univ (Grammar.apply true (less + 1) .parenthesized) front kind :=
    offers.of_reads fun behind expr _ final reads => reads.of_trial
  have same (good : Word → Prop) (behind : List Word) (session : Session)
      (faces : session.Faces (front ++ behind) .adql good) (others : firstKind behind ∉ queryStart) :
      parenthesis true (Grammar.apply true (less + 1)) session =
        Grammar.apply true (less + 1) .parenthesized session := by
    rw [parenthesis_eq_of_faces faces, parenthesisOf_opened opened nonempty others]
  refine paren.dispatch queryStart same (fun kind start => offers_parenthesis opened nonempty start (by omega))
    fun session behind position splits _ => ?_
  rw [parenthesis_eq_of_faces splits.faces]
  have query {session : Session} (splits : session.Splits front behind position) :=
    gets_subquery_opened h ranks opened nonempty few splits
  unfold parenthesisOf
  split
  · exact (query splits).1.mono fun _ => .inr
  · split
    · have trying : session.trying.Splits front behind position := splits.of_eq rfl rfl rfl rfl
      refine .firstOf ((trial.gets _ behind position trying).mono fun kind noted => ?_)
        fun failure after run alive => ?_
      · exact .inl (noted.elim (tried kind) fun ⟨_, _, nothing⟩ => nomatch nothing)
      · have again : after.settled.trying.Splits front behind position :=
          (Honest.splits_of_error rfl trying run alive).of_eq rfl rfl rfl rfl
        exact (query again).2.mono fun _ => .inr
    · exact (paren.gets session behind position splits).mono fun kind noted =>
        .inl (noted.elim id fun ⟨_, _, nothing⟩ => nomatch nothing)

/-- What starts with a parenthesis. -/
theorem serves_parenthesis {word : Word} (opens : word.kind = .leftParen)
    (few : front.length + 1 < size) :
    ∃ outcome, Honest Set.univ (parenthesis true (Grammar.apply true n)) (word :: front) outcome := by
  by_cases opened : ∀ word ∈ front, word.kind = .leftParen
  · exact ⟨none, honest_parenthesis_opened h ranks (List.forall_mem_cons.mpr ⟨opens, opened⟩)
      (List.cons_ne_nil _ _) few⟩
  · -- some word of the front decides
    push Not at opened
    obtain ⟨next, more, rfl⟩ : ∃ next more, front = next :: more :=
      List.exists_cons_of_ne_nil (by rintro rfl; simp at opened)
    obtain ⟨outcome, honest⟩ := (helpful_parenthesisOf h ranks next.kind
      (openQuery (next :: more))).honest (word :: next :: more) few
    refine ⟨outcome, honest.congr fun good behind session faces => ?_⟩
    rw [parenthesis_eq_of_faces faces]
    have ahead : openQuery (word :: next :: more ++ behind) = openQuery (next :: more) := by
      rw [List.cons_append, openQuery_cons_of_eq opens, openQuery_append opened]
    rw [ahead]
    rfl

end

end Adql
