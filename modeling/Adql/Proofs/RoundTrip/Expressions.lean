import Adql.Proofs.RoundTrip.Leaves

/-!
# Expressions are kept

The bodies of the rules for expressions keep what they read, if the rules that they apply do.  There
is one lemma for each part of the grammar of expressions: it takes the part apart as the source was
read, and puts the written words together.
-/

namespace Adql

open Adql.Parser Adql.Grammar

/-! ### Rows of words -/

/-- A token denotes an operator between operands only if it is the token of the operator. -/
theorem BinaryOp.eq_token_of_ofToken? {kind : TokenKind} {op : BinaryOp}
    (h : ofToken? kind = some op) : kind = op.token := by
  unfold ofToken? at h
  split at h <;> cases h <;> rfl

/-- A last row of words stands behind a separator. -/
theorem separated_concat (separator : TokenKind) (rows : List (List Word)) (last : List Word) :
    separated separator (rows ++ [last]) =
      (rows.flatMap fun row => row ++ [separator.word]) ++ last := by
  induction rows with
  | nil => rfl
  | cons first rows ih =>
    rw [List.flatMap_cons, List.append_assoc, ← ih, List.cons_append]
    cases rows <;> simp [separated]

/-- An expression in words other than expressions is written where it ends at a separator. -/
theorem endsExpression_of_mem {kind : TokenKind} {kinds : List TokenKind} (h : kind ∈ kinds)
    (ends : ∀ kind ∈ kinds, endsExpression kind = true) :
    endsExpression kind = true :=
  ends kind h

section

variable (apply : (rule : Rule) → Parser rule.Result)

/-- The predicates that can be negated, behind the word for the negation. -/
def negatableTail (operand : Expr) (level : Nat) (negated : Bool) : Parser Expr := do
  if ← eatWord .BETWEEN then
    return ← betweenTail apply operand negated level
  if ← eatWord .IN then
    return ← inTail apply operand negated
  if ← eatWord .LIKE then
    return ← likeTail apply operand negated false level
  if ← eatWord .ILIKE then
    return ← likeTail apply operand negated true level
  fail

/-- The postfix part of a predicate is a test for null, or can be negated. -/
theorem predicateTail_eq (operand : Expr) (level : Nat) :
    predicateTail apply operand level = (do
      if ← eatWord .IS then
        let negated ← eatWord .NOT
        expectWord .NULL
        return .isNull operand negated
      negatableTail apply operand level (← eatWord .NOT)) :=
  rfl

/-- The argument of an aggregate function that is not everything. -/
def aggregatedExpression : Parser (Expr × Bool) := do
  if ← eatWord .DISTINCT then
    return (← apply .expression, true)
  let _ ← eatWord .ALL
  return (← apply .expression, false)

/-- The argument of an aggregate function is everything, or one expression. -/
theorem aggregateArgument_eq (word : Keyword) :
    aggregateArgument apply word = (do
      if ← (if word = .COUNT then eat .star else pure false) then
        return (.wildcard [], false)
      aggregatedExpression apply) :=
  rfl

/-- A call of the geometry function that a name names, or of another function. -/
def namedCall : Option Geometry → Parser Expr
  | some function => apply (.geometry function)
  | none => apply .functionCall

/-- A name is a call or a column. -/
theorem nameOrCall_eq :
    nameOrCall apply = (do
      if (← nextKind) = .leftParen then namedCall apply (← current).geometryFunction?
      else .column <$> qualifiedName) :=
  rfl

/-- An operand that is no literal, told by the kind of its first token. -/
def primaryOf : TokenKind → Parser Expr
  | .leftParen => parenthesis true apply
  | .keyword .CASE => apply .case
  | .keyword .CAST => apply .cast
  | .keyword .EXISTS => apply .exists
  | .keyword .COUNT | .keyword .SUM | .keyword .AVG | .keyword .MIN | .keyword .MAX =>
    apply .aggregate
  | .identifier | .delimitedIdentifier => nameOrCall apply
  | _ => failExpecting operandStart

/-- An operand without prefix operator is a literal or told by its kind. -/
theorem primary_eq :
    primary true apply = (do
      let token ← current
      match token.literal? with
      | some value =>
        let _ ← advance
        pure (.literal value)
      | none => primaryOf apply token.kind) :=
  rfl

end

/-- The kinds of literals. -/
def literalKinds : List TokenKind :=
  [.integer, .real, .string, .keyword .TRUE, .keyword .FALSE, .keyword .NULL]

/-- A token of another kind is no literal. -/
theorem Token.literal?_eq_none {token : Token} (h : token.kind ∉ literalKinds) :
    token.literal? = none := by
  unfold Token.literal?
  split <;> first | rfl | (next hkind => exact absurd (hkind ▸ by decide) h)

/-- Tokens of one word stand for the same literal. -/
theorem Token.literal?_of_word {first second : Token} (h : first.word = second.word) :
    first.literal? = second.literal? := by
  obtain ⟨_, _, _⟩ := first
  obtain ⟨_, _, _⟩ := second
  cases h
  rfl

/-- A literal is written as a word of the kind that it was read from. -/
theorem Token.kind_of_literal? {token : Token} {value : Literal} (h : token.literal? = some value) :
    value.word.kind = token.kind := by
  unfold Token.literal? at h
  split at h
  · next hkind =>
    obtain ⟨_, _, rfl⟩ := Option.map_eq_some_iff.mp h
    exact hkind.symm
  · next hkind =>
    obtain ⟨_, _, rfl⟩ := Option.map_eq_some_iff.mp h
    exact hkind.symm
  · next hkind => cases h; exact hkind.symm
  · next hkind => cases h; exact hkind.symm
  · next hkind => cases h; exact hkind.symm
  · next hkind => cases h; exact hkind.symm
  · cases h

section

variable {apply : (rule : Rule) → Parser rule.Result} (keeps : KeepsRules apply)

include keeps

/-- An expression is kept, wherever what follows ends it. -/
theorem expression_kept (words : List Word) :
    Ensures (apply .expression) words fun expr rest =>
      Kept (apply .expression) (expr.words false)
        (fun behind => endsExpression (firstKind behind) = true) words expr rest ∧
        SameStart words (expr.words false) :=
  (keeps.preserves .expression words trivial).mono fun _ _ h => ⟨h.kept, h.start⟩

/-- A run of operators is kept. -/
theorem operators_kept (level : Nat) (words : List Word) :
    Ensures (apply (.operators level)) words fun expr rest =>
      Kept (apply (.operators level)) (expr.words false) (Follow rest) words expr rest ∧
        SameStart words (expr.words false) :=
  (keeps.preserves (.operators level) words trivial).mono fun _ _ h => ⟨h.kept, h.start⟩

/-- A query is kept. -/
theorem query_kept (words : List Word) :
    Ensures (apply .query) words fun query rest =>
      Kept (apply .query) (query.words false) (fun behind => firstKind behind ∈ afterQuery) words
        query rest ∧
      SameStart words (query.words false) :=
  (keeps.preserves .query words trivial).mono fun _ _ h => ⟨h.kept, h.start⟩

/-- Expressions with commas between them are kept. -/
theorem expressions_kept (words : List Word) :
    Ensures (expressions apply) words fun exprs rest => exprs ≠ [] ∧
      Kept (expressions apply) (separated .comma (Expr.wordsList false exprs))
        (fun behind => endsExpression (firstKind behind) = true ∧ firstKind behind ≠ .comma)
        words exprs rest ∧
      SameStart words (separated .comma (Expr.wordsList false exprs)) := by
  have items := Ensures.oneOrMore_kept .comma (Expr.words false) words
    (S := fun words expr _ => SameStart words (expr.words false)) nofun rfl (fun _ => rfl)
    (keeps.moves .expression) (expression_kept keeps)
  refine items.mono fun exprs rest ⟨first, others, _, split, start, _, kept⟩ => ?_
  rw [Expr.wordsList_eq_map]
  refine ⟨by simp [split], kept, ?_⟩
  rw [split]
  exact start.separated

/-- A query in parentheses is kept. -/
theorem parenthesizedQuery_kept (words : List Word) :
    Ensures (parenthesizedQuery apply) words fun query rest =>
      Kept (parenthesizedQuery apply) (enclosed (query.words false)) (fun _ => True) words query
        rest ∧
      SameStart words (enclosed (query.words false)) := by
  refine .expect_bind nofun fun word inner split opening => ?_
  subst split
  refine (query_kept keeps inner).bind fun query middle ⟨kept, start⟩ => ?_
  refine .expect_bind nofun fun word' rest closing hkind => .pure ?_
  subst closing
  refine ⟨.expect ?_ opening rfl, .paren opening rfl (start.append nofun)⟩
  exact kept.bind (.expect (.pure query rest) hkind rfl) fun behind _ =>
    show TokenKind.rightParen ∈ afterQuery by decide

/-! ### Predicates -/

/-- What follows the word `BETWEEN` is kept. -/
theorem betweenTail_kept (operand : Expr) (negated : Bool) (level : Nat) (words : List Word) :
    Ensures (betweenTail apply operand negated level) words fun expr rest => ∃ bare,
      expr.words false =
        operand.words false ++ (wordIf .NOT negated ++ Keyword.BETWEEN.word :: bare) ∧
      Kept (betweenTail apply operand negated level) bare (Follow rest) words expr rest := by
  refine (operators_kept keeps level words).bind fun low middle ⟨keptLow, _⟩ => ?_
  refine .expectWord_bind fun word middle' split hkind => ?_
  subst split
  refine (operators_kept keeps level middle').bind fun high rest ⟨keptHigh, _⟩ => .pure ?_
  refine ⟨_, rfl, keptLow.bind (.expectWord keptHigh.bind_pure hkind) fun behind _ => ?_⟩
  exact .of_same hkind.symm (fun h => by rw [firstKind_cons, hkind] at h; cases h)
    (by rw [firstKind_cons, hkind]; nofun) (by rw [firstKind_cons, hkind]; nofun)

/-- What follows the word `IN` is kept. -/
theorem inTail_kept (operand : Expr) (negated : Bool) (words : List Word) :
    Ensures (inTail apply operand negated) words fun expr rest => ∃ bare,
      expr.words false =
        operand.words false ++ (wordIf .NOT negated ++ Keyword.IN.word :: bare) ∧
      Kept (inTail apply operand negated) bare (fun _ => True) words expr rest := by
  refine .expect_bind nofun fun word inner split opening => .reads_bind (.currentKind inner) ?_
  subst split
  refine .ite (fun isQuery => ?_) fun isList => ?_
  · refine (query_kept keeps inner).bind fun query middle ⟨kept, start⟩ => ?_
    refine .expect_bind nofun fun word' rest closing hkind => .pure ⟨_, rfl, ?_⟩
    subst closing
    have tail := kept.bind (G := fun _ => True)
      (f := fun query => do
        let _ ← expect .rightParen
        pure (Expr.inQuery operand query negated))
      (.expect (.pure _ rest) hkind rfl) fun _ _ => show TokenKind.rightParen ∈ afterQuery by decide
    refine .expect (tail.of_reads fun behind _ hread => ?_) opening rfl
    have start : SameStart inner (query.words false ++ [TokenKind.rightParen.word] ++ behind) := by
      rw [List.append_assoc]
      exact start.append nofun
    refine (Reads.currentKind _).bind ?_
    rw [if_pos (start.startsQuery_iff.trans isQuery)]
    exact hread
  · refine (expressions_kept keeps inner).bind fun items middle ⟨_, kept, start⟩ => ?_
    refine .expect_bind nofun fun word' rest closing hkind => .pure ⟨_, rfl, ?_⟩
    subst closing
    have tail := kept.bind (G := fun _ => True)
      (f := fun items => do
        let _ ← expect .rightParen
        pure (Expr.inList operand items negated))
      (.expect (.pure _ rest) hkind rfl) fun _ _ => ⟨rfl, nofun⟩
    refine .expect (tail.of_reads fun behind _ hread => ?_) opening rfl
    have start : SameStart inner (separated .comma (Expr.wordsList false items) ++
        [TokenKind.rightParen.word] ++ behind) := by
      rw [List.append_assoc]
      exact start.append nofun
    refine (Reads.currentKind _).bind ?_
    rw [if_neg (start.startsQuery_iff ▸ isList)]
    exact hread

/-- What follows the word `LIKE` or `ILIKE` is kept. -/
theorem likeTail_kept (operand : Expr) (negated caseInsensitive : Bool) (level : Nat)
    (words : List Word) :
    Ensures (likeTail apply operand negated caseInsensitive level) words fun expr rest => ∃ bare,
      expr.words false = operand.words false ++
        (wordIf .NOT negated ++ (likeKeyword caseInsensitive).word :: bare) ∧
      Kept (likeTail apply operand negated caseInsensitive level) bare (Follow rest) words expr
        rest := by
  refine (operators_kept keeps level words).bind fun pattern middle ⟨keptPattern, _⟩ => ?_
  have escape : Ensures (afterWord .ESCAPE none (some <$> apply (.operators level))) middle
      fun escape rest =>
        Kept (afterWord .ESCAPE none (some <$> apply (.operators level)))
          (Expr.escapeWords false escape) (Follow rest) middle escape rest ∧
        ∀ behind, Follow rest behind → Follow middle (Expr.escapeWords false escape ++ behind) := by
    refine .afterWord (fun word inner split hkind => ?_) fun missed => ?_
    · subst split
      refine .map ((operators_kept keeps level inner).mono fun escape rest ⟨kept, _⟩ => ?_)
      refine ⟨(kept.map some).afterWord hkind, fun behind _ => ?_⟩
      exact .of_same hkind.symm (fun h => by rw [firstKind_cons, hkind] at h; cases h)
        (by rw [firstKind_cons, hkind]; nofun) (by rw [firstKind_cons, hkind]; nofun)
    · exact ⟨.afterWord_missed fun behind h found => missed (h.escape found), fun _ h => h⟩
  refine escape.bind fun escape rest ⟨keptEscape, links⟩ => .pure ?_
  exact ⟨_, rfl, keptPattern.bind (Kept.bind_pure keptEscape) links⟩

/-- A predicate that can be negated is kept, and starts with its word. -/
theorem negatableTail_kept (operand : Expr) (level : Nat) (negated : Bool) (words : List Word) :
    Ensures (negatableTail apply operand level negated) words fun expr rest => ∃ keyword bare,
      rest.length < words.length ∧ firstKind words = .keyword keyword ∧
      isNegatable (.keyword keyword) = true ∧
      expr.words false = operand.words false ++ (wordIf .NOT negated ++ keyword.word :: bare) ∧
      Kept (negatableTail apply operand level negated) (keyword.word :: bare) (Follow rest) words
        expr rest := by
  refine .eatWord_bind (fun word inner split hkind => ?_) fun _ => ?_
  · subst split
    refine ((betweenTail_kept keeps operand negated level inner).length_le
      (moving.rel_betweenTail keeps.moves operand negated level)).mono ?_
    rintro expr rest ⟨⟨bare, hwords, kept⟩, shorter⟩
    exact ⟨.BETWEEN, bare, Nat.lt_succ_of_le shorter, hkind, rfl, hwords, .eatWord kept hkind⟩
  refine .eatWord_bind (fun word inner split hkind => ?_) fun _ => ?_
  · subst split
    refine ((inTail_kept keeps operand negated inner).length_le
      (moving.rel_inTail keeps.moves operand negated)).mono ?_
    rintro expr rest ⟨⟨bare, hwords, kept⟩, shorter⟩
    have kept := kept.follow (G := Follow rest) fun _ _ => trivial
    refine ⟨.IN, bare, Nat.lt_succ_of_le shorter, hkind, rfl, hwords, .eatWord_missed ?_ ?_⟩
    · exact .eatWord kept hkind
    · exact fun _ _ => nofun
  refine .eatWord_bind (fun word inner split hkind => ?_) fun _ => ?_
  · subst split
    refine ((likeTail_kept keeps operand negated false level inner).length_le
      (moving.rel_likeTail keeps.moves operand negated false level)).mono ?_
    rintro expr rest ⟨⟨bare, hwords, kept⟩, shorter⟩
    refine ⟨.LIKE, bare, Nat.lt_succ_of_le shorter, hkind, rfl, hwords,
      .eatWord_missed (.eatWord_missed ?_ ?_) ?_⟩
    · exact .eatWord kept hkind
    · exact fun _ _ => nofun
    · exact fun _ _ => nofun
  refine .eatWord_bind (fun word inner split hkind => ?_) fun _ => .fail
  subst split
  refine ((likeTail_kept keeps operand negated true level inner).length_le
    (moving.rel_likeTail keeps.moves operand negated true level)).mono ?_
  rintro expr rest ⟨⟨bare, hwords, kept⟩, shorter⟩
  refine ⟨.ILIKE, bare, Nat.lt_succ_of_le shorter, hkind, rfl, hwords,
    .eatWord_missed (.eatWord_missed (.eatWord_missed ?_ ?_) ?_) ?_⟩
  · exact .eatWord kept hkind
  · exact fun _ _ => nofun
  · exact fun _ _ => nofun
  · exact fun _ _ => nofun

/-- The postfix part of a predicate is kept; it starts with the same words as in the source. -/
theorem predicateTail_kept (operand : Expr) (level : Nat) (words : List Word) :
    Ensures (predicateTail apply operand level) words fun expr rest => ∃ bare,
      rest.length < words.length ∧ expr.words false = operand.words false ++ bare ∧
      Kept (predicateTail apply operand level) bare (Follow rest) words expr rest ∧
      firstKind bare = firstKind words ∧ bare ≠ [] ∧
      (firstKind words = .keyword .NOT → ∀ behind,
        secondKind (bare ++ behind) = secondKind words) := by
  rw [predicateTail_eq]
  refine .eatWord_bind (fun word inner split hkind => ?_) fun _ => ?_
  · subst split
    have null {negated : Bool} {rest : List Word} {word : Word}
        (hkind : word.kind = .keyword .NULL) :
        Kept (do expectWord .NULL; pure (Expr.isNull operand negated)) [Keyword.NULL.word]
          (Follow rest) (word :: rest) (.isNull operand negated) rest :=
      .expectWord (.pure _ rest) hkind
    have different : firstKind (word :: inner) ≠ .keyword .NOT := by
      rw [firstKind_cons, hkind]
      nofun
    refine .eatWord_bind (fun word' inner' split hnot => ?_) fun _ => ?_
    · subst split
      refine .expectWord_bind fun word'' rest split hnull => .pure ?_
      subst split
      refine ⟨_, ?_, rfl, .eatWord (.eatWord (null hnull) hnot) hkind, hkind.symm,
        List.cons_ne_nil _ _, fun h => absurd h different⟩
      simp only [List.length_cons]
      omega
    · refine .expectWord_bind fun word'' rest split hnull => .pure ?_
      subst split
      refine ⟨_, ?_, rfl, .eatWord (.eatWord_missed (null hnull) fun _ _ => nofun) hkind, hkind.symm,
        List.cons_ne_nil _ _, fun h => absurd h different⟩
      simp only [List.length_cons]
      omega
  · refine .eatWord_bind (fun word inner split hnot => ?_) fun missed => ?_
    · subst split
      refine (negatableTail_kept keeps operand level true inner).mono ?_
      rintro expr rest ⟨keyword, bare, shorter, hkind, _, hwords, kept⟩
      refine ⟨_, Nat.lt_succ_of_lt shorter, hwords, .eatWord_missed (.eatWord kept hnot) fun _ _ => nofun, hnot.symm,
        List.cons_ne_nil _ _, fun _ behind => ?_⟩
      rw [secondKind_cons, hkind]
      rfl
    · refine (negatableTail_kept keeps operand level false words).mono ?_
      rintro expr rest ⟨keyword, bare, shorter, hkind, negatable, hwords, kept⟩
      have plain : ∀ behind, Follow rest behind →
          firstKind (keyword.word :: bare ++ behind) ≠ .keyword .NOT := by
        intro _ _ h
        rw [hkind] at missed
        exact missed h
      refine ⟨_, shorter, hwords, .eatWord_missed (.eatWord_missed kept plain) ?_, hkind.symm,
        List.cons_ne_nil _ _, fun h => absurd h missed⟩
      rintro behind _ h
      rw [show keyword = .IS from TokenKind.keyword.inj h] at negatable
      cases negatable

/-! ### Calls -/

/-- The argument of an aggregate function that is not everything is kept. -/
theorem aggregatedExpression_kept (words : List Word) :
    Ensures (aggregatedExpression apply) words fun argument rest =>
      Kept (aggregatedExpression apply) (wordIf .DISTINCT argument.2 ++ argument.1.words false)
        (fun behind => firstKind behind = .rightParen) words argument rest ∧
      ∀ behind, firstKind (wordIf .DISTINCT argument.2 ++ argument.1.words false ++ behind) ≠
        .star := by
  have ends {behind : List Word} (h : firstKind behind = .rightParen) :
      endsExpression (firstKind behind) = true := by rw [h]; rfl
  have plain {words rest : List Word} {expr : Expr}
      (kept : Kept (apply .expression) (expr.words false)
        (fun behind => endsExpression (firstKind behind) = true) words expr rest)
      (start : SameStart words (expr.words false)) :
      Kept (aggregatedExpression apply) (expr.words false)
        (fun behind => firstKind behind = .rightParen) words (expr, false) rest := by
    refine .eatWord_missed (.eatWord_missed (.follow (kept.of_reads ?_) fun _ => ends) ?_) ?_
    · exact fun _ _ hread => hread.bind (.pure _ _)
    · exact fun _ _ => start.firstKind_ne _ (by decide)
    · exact fun _ _ => start.firstKind_ne _ (by decide)
  refine .eatWord_bind (fun word inner split hkind => ?_) fun _ => ?_
  · subst split
    refine (expression_kept keeps inner).bind fun expr rest ⟨kept, start⟩ => .pure ?_
    refine ⟨.eatWord (.follow (kept.of_reads ?_) fun _ => ends) hkind, fun _ => nofun⟩
    exact fun _ _ hread => hread.bind (.pure _ _)
  · refine .eatWord_bind (fun word inner split hkind => ?_) fun _ => ?_
    · subst split
      refine (expression_kept keeps inner).bind fun expr rest ⟨kept, start⟩ => .pure ?_
      refine ⟨(plain kept start).skip (by rw [hkind]; nofun), fun _ => start.firstKind_ne _ (by decide)⟩
    · refine (expression_kept keeps words).bind fun expr rest ⟨kept, start⟩ => .pure ?_
      exact ⟨plain kept start, fun _ => start.firstKind_ne _ (by decide)⟩

/-- The argument of an aggregate function is kept. -/
theorem aggregateArgument_kept (word : Keyword) (words : List Word) :
    Ensures (aggregateArgument apply word) words fun argument rest =>
      Kept (aggregateArgument apply word) (wordIf .DISTINCT argument.2 ++ argument.1.words false)
        (fun behind => firstKind behind = .rightParen) words argument rest := by
  rw [aggregateArgument_eq]
  by_cases counts : word = .COUNT
  · simp only [if_pos counts]
    refine .eat_bind nofun (fun star inner split hkind => ?_) fun _ => ?_
    · subst split
      exact .pure (.eat (.pure _ inner) hkind rfl)
    · refine (aggregatedExpression_kept keeps words).mono fun argument rest ⟨kept, noStar⟩ => ?_
      exact .eat_missed kept fun behind _ => noStar behind
  · simp only [if_neg counts]
    refine .reads_bind (.pure false words) ?_
    refine (aggregatedExpression_kept keeps words).mono fun argument rest ⟨kept, _⟩ => ?_
    exact kept.of_reads fun _ _ hread => (Reads.pure false _).bind hread

/-- A call of an aggregate function is kept. -/
theorem aggregate_kept {words : List Word} (applies : firstKind words ∈ startKinds) :
    Ensures (aggregate apply) words fun expr rest =>
      Kept (aggregate apply) (expr.words false) (fun _ => True) words expr rest ∧
      SameStart words (expr.words false) := by
  refine .current_bind fun token first _ => ?_
  cases hkeyword : token.keyword? with
  | none => exact .fail
  | some keyword =>
    have hkind : token.kind = .keyword keyword := Token.keyword?_eq_some.mp hkeyword
    obtain ⟨word, inner, rfl, same⟩ := exists_cons_of_firstKind (by nofun) (first ▸ hkind)
    refine .advance_bind fun _ _ _ => .expect_bind nofun fun word' inner' split opening => ?_
    subst split
    refine (aggregateArgument_kept keeps keyword inner').bind fun argument middle kept => ?_
    obtain ⟨argument, distinct⟩ := argument
    refine .expect_bind nofun fun word'' rest split closing => .pure ?_
    subst split
    rw [Expr.words_aggregate]
    refine ⟨?_, .other applies same.symm⟩
    have inside := kept.bind (G := fun _ => True)
      (f := fun argument => do
        let _ ← expect .rightParen
        pure (Expr.call (.regular keyword.spelling) [argument.1] argument.2))
      (.expect (.pure _ rest) closing rfl) fun _ _ => rfl
    have call : Kept (do
        let _ ← expect .leftParen
        let argument ← aggregateArgument apply keyword
        let _ ← expect .rightParen
        pure (Expr.call (.regular keyword.spelling) [argument.1] argument.2))
        (enclosed (wordIf .DISTINCT distinct ++ argument.words false)) (fun _ => True)
        (word' :: inner') (.call (.regular keyword.spelling) [argument] distinct) rest :=
      .expect inside opening rfl
    refine call.cons same keyword.spelled_word fun _ _ hread => ?_
    refine .current_bind fun token same => ?_
    obtain ⟨_, _, _⟩ := token
    cases same
    exact Reads.advance_bind fun _ _ => hread

/-- The arguments of a call are kept. -/
theorem callArguments_kept (words : List Word) :
    Ensures (callArguments apply) words fun arguments rest =>
      Kept (callArguments apply) (separated .comma (Expr.wordsList false arguments))
        (fun behind => firstKind behind = .rightParen) words arguments rest := by
  have ends {behind : List Word} (h : firstKind behind = .rightParen) :
      endsExpression (firstKind behind) = true ∧ firstKind behind ≠ .comma := by
    rw [h]
    exact ⟨rfl, nofun⟩
  refine .check_ite nofun (fun word rest split hkind => .pure ?_) fun _ => ?_
  · exact .check (.pure _ _) fun _ h => h
  · refine (expressions_kept keeps words).mono fun arguments rest ⟨_, kept, start⟩ => ?_
    exact .check_missed (kept.follow fun _ => ends) fun _ _ => start.firstKind_ne _ (by decide)

/-- A call of a function is kept. -/
theorem functionCall_kept (words : List Word) :
    Ensures (functionCall apply) words fun expr rest =>
      Kept (functionCall apply) (expr.words false) (fun _ => True) words expr rest ∧
      SameStart words (expr.words false) ∧
      ∀ behind, secondKind (expr.words false ++ behind) = .leftParen := by
  refine (identifier_kept words).bind fun name inner ⟨keptName, starts⟩ => ?_
  obtain ⟨word, rfl, source, written, function⟩ := starts
  refine .expect_bind nofun fun word' inner' split opening => ?_
  subst split
  refine (callArguments_kept keeps inner').bind fun arguments middle kept => ?_
  refine .expect_bind nofun fun word'' rest split closing => .pure ?_
  subst split
  have inside := kept.bind (G := fun _ => True)
    (f := fun arguments => do
      let _ ← expect .rightParen
      pure (Expr.call name arguments false))
    (.expect (.pure _ rest) closing rfl) fun _ _ => rfl
  have paren : firstKind (word' :: inner') ≠ .dot := by
    rw [firstKind_cons, opening]
    nofun
  refine ⟨?_, .name source written function ⟨fun h => absurd h paren, nofun⟩, fun _ => rfl⟩
  exact keptName.bind (f := fun name => do
    let _ ← expect .leftParen
    let arguments ← callArguments apply
    let _ ← expect .rightParen
    pure (Expr.call name arguments false)) (.expect inside opening rfl) fun _ _ => trivial

/-- An argument of a geometry function is kept, with the comma or the parenthesis behind it. -/
theorem geometryStep_kept (function : Geometry) (arguments : Array Expr) (words : List Word) :
    Ensures (geometryStep apply function arguments) words (AfterStep
      (fun next rest => ∃ expr, next = arguments.push expr ∧ rest.length < words.length ∧
        Kept (geometryStep apply function arguments)
          (expr.words false ++ [TokenKind.comma.word]) (fun _ => True) words (.more next) rest)
      (fun final rest => ∃ expr, final = arguments.push expr ∧
        Kept (geometryStep apply function arguments)
          (expr.words false ++ [TokenKind.rightParen.word]) (fun _ => True) words (.done final)
          rest)) := by
  refine ((expression_kept keeps words).length_le (keeps.moves _)).bind ?_
  rintro expr middle ⟨⟨kept, _⟩, shorter⟩
  -- whatever stands behind the argument, it ends the argument
  have written {f : Expr → Parser (Step (Array Expr))} {kind : TokenKind} {word : Word}
      {rest : List Word} {value : Step (Array Expr)} (h : endsExpression kind = true)
      (tail : Kept (f expr) [kind.word] (fun _ => True) (word :: rest) value rest)
      (split : middle = word :: rest) :
      Kept (apply .expression >>= f) (expr.words false ++ [kind.word]) (fun _ => True) words value
        rest := by
    subst split
    exact kept.bind tail fun _ _ => h
  refine .ite (fun needed => ?_) fun enough => ?_
  · refine .expect_bind nofun fun word rest split hkind => .pure ⟨expr, rfl, ?_, ?_⟩
    · rw [split, List.length_cons] at shorter
      omega
    · refine written rfl ?_ split
      simp only [if_pos needed]
      exact .expect (.pure _ rest) hkind rfl
  · by_cases more : function.acceptsMore (arguments.push expr).size = true
    · simp only [if_pos more]
      refine .eat_bind nofun (fun word rest split hkind => .pure ⟨expr, rfl, ?_, ?_⟩) fun _ => ?_
      · rw [split, List.length_cons] at shorter
        omega
      · refine written rfl ?_ split
        simp only [if_neg enough, if_pos more]
        exact .eat (.pure _ rest) hkind rfl
      · refine .expect_bind nofun fun word rest split hkind => .pure ⟨expr, rfl, ?_⟩
        refine written rfl ?_ split
        simp only [if_neg enough, if_pos more]
        exact .eat_missed (.expect (.pure _ rest) hkind rfl) fun _ _ => nofun
    · simp only [if_neg more]
      refine .reads_bind (.pure false middle) ?_
      refine .expect_bind nofun fun word rest split hkind => .pure ⟨expr, rfl, ?_⟩
      refine written rfl ?_ split
      simp only [if_neg enough, if_neg more]
      exact .peek false (.expect (.pure _ rest) hkind rfl) fun _ _ => .pure false _

/-- A call of a geometry function is kept; its name is written in upper case. -/
theorem geometryCall_kept {function : Geometry} {words : List Word}
    (applies : Rule.applies (.geometry function) words) :
    Ensures (geometryCall apply function) words fun expr rest =>
      Kept (geometryCall apply function) (expr.words false) (fun _ => True) words expr rest ∧
      SameStart words (expr.words false) ∧
      ∀ behind, secondKind (expr.words false ++ behind) = .leftParen := by
  obtain ⟨word, inner, rfl, named⟩ := applies
  have hkind : word.kind = .identifier := by
    unfold Token.geometryFunction? at named
    split at named
    · next hkind => exact hkind
    · cases named
  refine .advance_bind fun _ _ _ => .expect_bind nofun fun word' inner' split opening => ?_
  subst split
  have arguments := Ensures.iterate_kept (geometryStep apply function) #[] inner'
    (H := fun _ _ => True) (D := fun _ _ => True)
    (P := fun arguments emitted => emitted =
      arguments.toList.flatMap fun expr => expr.words false ++ [TokenKind.comma.word])
    (Q := fun arguments emitted => emitted =
      separated .comma (Expr.wordsList false arguments.toList) ++ [TokenKind.rightParen.word])
    rfl fun arguments emitted words hemitted => by
      refine (geometryStep_kept keeps function arguments words).mono fun step rest hstep => ?_
      cases step with
      | more next =>
        obtain ⟨expr, rfl, shorter, kept⟩ := hstep
        exact ⟨_, by simp, shorter, by simp [hemitted], kept, fun _ h => h⟩
      | done final =>
        obtain ⟨expr, rfl, kept⟩ := hstep
        refine ⟨_, ?_, kept, fun _ h => h⟩
        rw [Array.toList_push, Expr.wordsList_eq_map, List.map_append, List.map_singleton,
          separated_concat, List.flatMap_map, hemitted, List.append_assoc]
  refine arguments.bind fun arguments rest ⟨bare, hbare, kept, _⟩ => .pure ?_
  have call : Kept (do
      let _ ← expect .leftParen
      let arguments ← iterate (geometryStep apply function) #[]
      pure (Expr.geometry function arguments.toList)) (TokenKind.leftParen.word :: bare)
      (fun _ => True) (word' :: inner') (.geometry function arguments.toList) rest :=
    .expect kept.bind_pure opening rfl
  have hwords : (Expr.geometry function arguments.toList).words false =
      ⟨.identifier, function.spelling⟩ :: TokenKind.leftParen.word :: bare := by
    rw [hbare]
    rfl
  have paren : firstKind (word' :: inner') ≠ .dot := by
    rw [firstKind_cons, opening]
    nofun
  rw [hwords]
  refine ⟨call.cons hkind function.isName_spelling ?_,
    .name (by rw [hkind]; rfl) rfl ?_ ⟨fun h => absurd h paren, nofun⟩, fun _ => rfl⟩
  · exact fun _ _ hread => Reads.advance_bind fun _ _ => hread
  · rw [named]
    exact function.ofName?_spelling

/-! ### Case distinctions and conversions -/

/-- The subject of a case distinction is kept. -/
theorem caseSubject_kept (words : List Word) :
    Ensures (caseSubject apply) words fun subject rest =>
      Kept (caseSubject apply) ((Expr.wordsOption false subject).getD [])
        (fun behind => firstKind behind = .keyword .WHEN) words subject rest := by
  refine .check_ite nofun (fun word rest split hkind => .pure ?_) fun _ => ?_
  · exact .check (.pure _ _) fun _ h => h
  · refine .map ((expression_kept keeps words).mono fun subject rest ⟨kept, start⟩ => ?_)
    refine .check_missed (.follow (kept.map some) fun behind h => ?_) fun _ _ => start.firstKind_ne _ (by decide)
    rw [h]
    rfl

/-- A branch of a case distinction is kept, with the word that starts another branch behind it. -/
theorem branchStep_kept (branches : Array Branch) (words : List Word) :
    Ensures (branchStep apply branches) words (AfterStep
      (fun next rest => ∃ condition result, next = branches.push ⟨condition, result⟩ ∧
        rest.length < words.length ∧
        Kept (branchStep apply branches) (condition.words false ++ Keyword.THEN.word ::
          (result.words false ++ [Keyword.WHEN.word])) (fun _ => True) words (.more next) rest)
      (fun final rest => ∃ condition result, final = branches.push ⟨condition, result⟩ ∧
        Kept (branchStep apply branches) (condition.words false ++ Keyword.THEN.word ::
          result.words false) (fun behind => endsExpression (firstKind behind) = true ∧
            firstKind behind ≠ .keyword .WHEN) words (.done final) rest)) := by
  refine ((expression_kept keeps words).length_le (keeps.moves _)).bind ?_
  rintro condition middle ⟨⟨keptCondition, _⟩, shorter⟩
  refine .expectWord_bind fun word inner split hthen => ?_
  subst split
  refine ((expression_kept keeps inner).length_le (keeps.moves _)).bind ?_
  rintro result middle ⟨⟨keptResult, _⟩, shorter'⟩
  refine .eatWord_bind (fun word' rest split hwhen => ?_) fun missed => ?_
  · subst split
    refine .pure ⟨condition, result, rfl, ?_, ?_⟩
    · rw [List.length_cons] at shorter shorter'
      omega
    · have tail := keptResult.bind (G := fun _ => True)
        (f := fun result => do
          if ← eatWord .WHEN then
            pure (Step.more (branches.push ⟨condition, result⟩))
          else pure (Step.done (branches.push ⟨condition, result⟩)))
        (.eatWord (.pure _ rest) hwhen) fun _ _ => rfl
      exact keptCondition.bind (.expectWord tail hthen) fun _ _ => rfl
  · refine .pure ⟨condition, result, rfl, ?_⟩
    have tail := keptResult.bind
      (G := fun behind => endsExpression (firstKind behind) = true ∧
        firstKind behind ≠ .keyword .WHEN)
      (f := fun result => do
        if ← eatWord .WHEN then
          pure (Step.more (branches.push ⟨condition, result⟩))
        else pure (Step.done (branches.push ⟨condition, result⟩)))
      (.eatWord_missed (.pure _ middle) fun _ h => h.2) fun _ h => h.1
    rw [List.append_nil] at tail
    exact keptCondition.bind (.expectWord tail hthen) fun _ _ => rfl

omit keeps in
/-- The words of branches stand one behind the other. -/
theorem Branch.wordsList_concat (branches : List Branch) (last : Branch) :
    Branch.wordsList false (branches ++ [last]) =
      Branch.wordsList false branches ++ last.words false := by
  induction branches with
  | nil => exact List.append_nil _
  | cons first branches ih => rw [List.cons_append, wordsList, wordsList, ih, List.append_assoc]

/-- The branches of a case distinction are kept. -/
theorem branches_kept (words : List Word) :
    Ensures (iterate (branchStep apply) #[]) words fun branches rest => ∃ bare,
      Keyword.WHEN.word :: bare = Branch.wordsList false branches.toList ∧
      Kept (iterate (branchStep apply) #[]) bare
        (fun behind => endsExpression (firstKind behind) = true ∧
          firstKind behind ≠ .keyword .WHEN) words branches rest := by
  have loop := Ensures.iterate_kept (branchStep apply) #[] words (H := fun _ _ => True)
    (D := fun _ behind => endsExpression (firstKind behind) = true ∧
      firstKind behind ≠ .keyword .WHEN)
    (P := fun branches emitted => Keyword.WHEN.word :: emitted =
      Branch.wordsList false branches.toList ++ [Keyword.WHEN.word])
    (Q := fun branches emitted => Keyword.WHEN.word :: emitted =
      Branch.wordsList false branches.toList)
    rfl fun branches emitted words hemitted => by
      refine (branchStep_kept keeps branches words).mono fun step rest hstep => ?_
      cases step with
      | more next =>
        obtain ⟨condition, result, rfl, shorter, kept⟩ := hstep
        refine ⟨_, by simp, shorter, ?_, kept, fun _ h => trivial⟩
        rw [← List.cons_append, hemitted, Array.toList_push, Branch.wordsList_concat, Branch.words]
        simp
      | done final =>
        obtain ⟨condition, result, rfl, kept⟩ := hstep
        refine ⟨_, ?_, kept, fun _ h => trivial⟩
        rw [← List.cons_append, hemitted, Array.toList_push, Branch.wordsList_concat, Branch.words]
        simp
  exact loop.mono fun branches rest ⟨bare, hbare, kept, _⟩ => ⟨bare, hbare, kept⟩

/-- What stands behind a word of a clause with an expression is kept. -/
theorem otherwise_kept (words : List Word) :
    Ensures (afterWord .ELSE none (some <$> apply .expression)) words fun otherwise rest =>
      Kept (afterWord .ELSE none (some <$> apply .expression))
        (clauseWords .ELSE (Expr.wordsOption false otherwise))
        (fun behind => firstKind behind = .keyword .END) words otherwise rest := by
  refine .afterWord (fun word inner split hkind => ?_) fun _ => ?_
  · subst split
    refine .map ((expression_kept keeps inner).mono fun otherwise rest ⟨kept, _⟩ => ?_)
    refine ((kept.map some).afterWord hkind).follow fun behind h => ?_
    rw [h]
    rfl
  · exact .afterWord_missed fun behind h => by rw [h]; nofun

/-- A case distinction is kept. -/
theorem caseDistinction_kept (words : List Word) :
    Ensures (caseDistinction apply) words fun expr rest =>
      Kept (caseDistinction apply) (expr.words false) (fun _ => True) words expr rest ∧
      SameStart words (expr.words false) := by
  refine .expectWord_bind fun word inner split hcase => ?_
  subst split
  refine (caseSubject_kept keeps inner).bind fun subject middle keptSubject => ?_
  refine .expectWord_bind fun word' inner' split hwhen => ?_
  subst split
  refine (branches_kept keeps inner').bind fun branches middle ⟨bare, hbare, keptBranches⟩ => ?_
  refine (otherwise_kept keeps middle).bind fun otherwise middle' keptOtherwise => ?_
  refine .expectWord_bind fun word'' rest split hend => .pure ?_
  subst split
  have closing := keptOtherwise.bind (G := fun _ => True)
    (f := fun otherwise => do
      expectWord .END
      pure (Expr.case subject branches.toList otherwise))
    (.expectWord (.pure _ rest) hend) fun _ _ => rfl
  have tail := keptBranches.bind (G := fun _ => True)
    (f := fun branches => do
      let otherwise ← afterWord .ELSE none (some <$> apply .expression)
      expectWord .END
      pure (Expr.case subject branches.toList otherwise))
    closing fun behind _ => by cases otherwise <;> exact ⟨rfl, nofun⟩
  have whole := keptSubject.bind (G := fun _ => True)
    (f := fun subject => do
      expectWord .WHEN
      let branches ← iterate (branchStep apply) #[]
      let otherwise ← afterWord .ELSE none (some <$> apply .expression)
      expectWord .END
      pure (Expr.case subject branches.toList otherwise))
    (.expectWord tail hwhen) fun _ _ => rfl
  have hwords : (Expr.case subject branches.toList otherwise).words false =
      Keyword.CASE.word :: ((Expr.wordsOption false subject).getD [] ++ (Keyword.WHEN.word ::
        (bare ++ (clauseWords .ELSE (Expr.wordsOption false otherwise) ++
          [Keyword.END.word])))) := by
    rw [Expr.words, ← hbare]
    rfl
  rw [hwords]
  refine ⟨.expectWord whole hcase, .other ?_ hcase.symm⟩
  rw [hcase]
  decide

/-- A conversion is kept. -/
theorem conversion_kept (words : List Word) :
    Ensures (conversion apply) words fun expr rest =>
      Kept (conversion apply) (expr.words false) (fun _ => True) words expr rest ∧
      SameStart words (expr.words false) := by
  refine .expectWord_bind fun word inner split hcast => ?_
  subst split
  refine .expect_bind nofun fun word' inner' split opening => ?_
  subst split
  -- the operand and the type between the parentheses
  let body : Parser Expr := do
    let operand ← apply .expression
    expectWord .AS
    let target ← apply .dataType
    pure (.cast operand target)
  have inside : Ensures body inner' fun expr rest => ∃ bare,
      expr.words false = Keyword.CAST.word :: enclosed bare ∧
      Kept body bare (fun behind => firstKind behind ≠ .leftParen) inner' expr rest := by
    refine (expression_kept keeps inner').bind fun operand middle ⟨keptOperand, _⟩ => ?_
    refine .expectWord_bind fun word rest split has => ?_
    subst split
    refine (keeps.preserves .dataType rest trivial).bind fun target rest ⟨keptTarget, _, _⟩ => .pure ?_
    exact ⟨_, rfl, keptOperand.bind (.expectWord keptTarget.bind_pure has) fun _ _ => rfl⟩
  refine inside.bind fun expr middle ⟨bare, hwords, kept⟩ => ?_
  refine .expect_bind nofun fun word'' rest split closing => .pure ?_
  subst split
  rw [hwords]
  have closed := kept.bind (G := fun _ => True)
    (f := fun expr => do
      let _ ← expect .rightParen
      pure expr)
    (.expect (.pure expr rest) closing rfl) fun _ _ => nofun
  refine ⟨.expectWord (.expect closed opening rfl) hcast, .other ?_ hcast.symm⟩
  rw [hcast]
  decide

/-! ### Parentheses -/

/-- An expression in parentheses is kept. -/
theorem parenthesizedExpression_kept (words : List Word) :
    Ensures (parenthesizedExpression apply) words fun expr rest =>
      Kept (parenthesizedExpression apply) (expr.words false) (fun _ => True) words expr rest ∧
      SameStart words (expr.words false) := by
  refine .map ?_
  refine .expect_bind nofun fun word inner split opening => ?_
  subst split
  refine (expression_kept keeps inner).bind fun expr middle ⟨kept, start⟩ => ?_
  refine .expect_bind nofun fun word' rest split closing => .pure ?_
  subst split
  have closed := kept.bind (G := fun _ => True)
    (f := fun expr => do
      let _ ← expect .rightParen
      pure expr)
    (.expect (.pure expr rest) closing rfl) fun _ _ => rfl
  exact ⟨.map Expr.paren (.expect closed opening rfl), .paren opening rfl (start.append nofun)⟩

/-- A query that stands for a value is kept. -/
theorem scalarSubquery_kept (words : List Word) :
    Ensures (scalarSubquery apply) words fun expr rest =>
      Kept (scalarSubquery apply) (expr.words false) (fun _ => True) words expr rest ∧
      SameStart words (expr.words false) :=
  .map ((parenthesizedQuery_kept keeps words).mono fun _ _ ⟨kept, start⟩ => ⟨kept.map _, start⟩)

/-- A test whether a query has rows is kept. -/
theorem existence_kept (words : List Word) :
    Ensures (existence apply) words fun expr rest =>
      Kept (existence apply) (expr.words false) (fun _ => True) words expr rest ∧
      SameStart words (expr.words false) := by
  refine .expectWord_bind fun word inner split hexists => ?_
  subst split
  refine .map ((parenthesizedQuery_kept keeps inner).mono fun query rest ⟨kept, _⟩ => ?_)
  refine ⟨.expectWord (kept.map _) hexists, .other ?_ hexists.symm⟩
  rw [hexists]
  decide

/-- A parenthesis that may be an expression or a query is kept. -/
theorem eitherParenthesis_kept (words : List Word) :
    Ensures (eitherParenthesis apply) words fun expr rest =>
      Kept (eitherParenthesis apply) (expr.words false) (fun _ => True) words expr rest ∧
      SameStart words (expr.words false) := by
  refine .firstOf ?_ (keeps.settles _ _ rfl) fun fails => ?_
  · exact (keeps.preserves .parenthesizedTrial words trivial).mono fun expr rest ⟨kept, start, _⟩ =>
      ⟨kept.firstOf_left, start⟩
  · refine ((keeps.preserves .subqueryTrial words trivial).and (keeps.trialFails words fails)).mono ?_
    exact fun expr rest ⟨⟨kept, start, _⟩, again⟩ =>
      ⟨kept.firstOf_right fun behind _ => again behind, start⟩

/-- What starts with a parenthesis is kept. -/
theorem parenthesis_kept {words : List Word} (opening : firstKind words = .leftParen) :
    Ensures (parenthesis true apply) words fun expr rest =>
      Kept (parenthesis true apply) (expr.words false) (fun _ => True) words expr rest ∧
      SameStart words (expr.words false) := by
  unfold parenthesis
  simp only [↓reduceIte]
  refine .reads_bind (.nextKind words) (.ite (fun isQuery => ?_) fun noQuery => ?_)
  · refine (keeps.preserves .scalarSubquery words trivial).mono fun expr rest ⟨kept, start, _⟩ => ⟨?_, start⟩
    refine kept.of_reads fun behind _ hread => (Reads.nextKind _).bind ?_
    rw [if_pos (start.startsQuery_second opening behind ▸ isQuery)]
    exact hread
  · -- the written words lead to the same alternative
    have again {p q : Parser Expr} {expr : Expr} {behind : List Word}
        (start : SameStart words (expr.words false)) (condition : Bool)
        (hcondition : condition = (decide (secondKind words = .leftParen) &&
          parenthesesOpenQuery (words.map (·.kind) ++ [.eof])))
        (hread : Reads (if condition = true then p else q) (expr.words false ++ behind) expr
          behind) :
        Reads (do
          let next ← nextKind
          if startsQuery next = true then apply .scalarSubquery
          else if next = .leftParen && parenthesesOpenQuery (← kindsAhead) then p
          else q) (expr.words false ++ behind) expr behind := by
      refine (Reads.nextKind _).bind ?_
      rw [if_neg (start.startsQuery_second opening behind ▸ noQuery)]
      refine (Reads.kindsAhead _).bind ?_
      rw [List.map_append, List.append_assoc, start.parenthesesOpenQuery [.eof],
        decide_eq_decide.mpr (start.leftParen_second opening behind), ← hcondition]
      exact hread
    refine .reads_bind (.kindsAhead words) (.ite (fun either => ?_) fun noEither => ?_)
    · refine (eitherParenthesis_kept keeps words).mono fun expr rest ⟨kept, start⟩ => ⟨?_, start⟩
      refine kept.of_reads fun behind _ hread => again start true either.symm ?_
      exact hread
    · refine (keeps.preserves .parenthesized words trivial).mono fun expr rest ⟨kept, start, _⟩ => ⟨?_, start⟩
      refine kept.of_reads fun behind _ hread =>
        again start false (Bool.eq_false_iff.mpr noEither).symm ?_
      exact hread

/-! ### Operands and operators -/

/-- A name is kept, whether it is a call or a column. -/
theorem nameOrCall_kept {words : List Word} (named : (firstKind words).isIdentifier = true) :
    Ensures (nameOrCall apply) words fun expr rest =>
      Kept (nameOrCall apply) (expr.words false)
        (fun behind => firstKind behind ≠ .dot ∧ firstKind behind ≠ .leftParen) words expr rest ∧
      SameStart words (expr.words false) := by
  rw [nameOrCall_eq]
  refine .reads_bind (.nextKind words) (.ite (fun isCall => ?_) fun noCall => ?_)
  · obtain ⟨word, inner, rfl⟩ : ∃ word inner, words = word :: inner := by
      cases words with
      | nil => cases named
      | cons word inner => exact ⟨word, inner, rfl⟩
    have call : Ensures (namedCall apply word.token.geometryFunction?) (word :: inner)
        fun expr rest =>
          Kept (namedCall apply word.token.geometryFunction?) (expr.words false) (fun _ => True)
            (word :: inner) expr rest ∧
          SameStart (word :: inner) (expr.words false) ∧
          ∀ behind, secondKind (expr.words false ++ behind) = .leftParen := by
      cases function : word.token.geometryFunction? with
      | some function' =>
        refine (keeps.preserves (.geometry function') _ ⟨word, inner, rfl, function⟩).mono ?_
        exact fun _ _ ⟨kept, start, call⟩ => ⟨kept, start, call⟩
      | none =>
        refine (keeps.preserves .functionCall (word :: inner) trivial).mono ?_
        exact fun _ _ ⟨kept, start, call⟩ => ⟨kept, start, call⟩
    have function {word : Word} {token : Token} (same : token.word = word) :
        token.geometryFunction? = word.token.geometryFunction? := by
      obtain ⟨_, _, _⟩ := token
      cases same
      rfl
    refine .current_bind fun token _ hword => ?_
    rw [function (hword word inner rfl).1]
    refine call.mono fun expr rest ⟨kept, start, call⟩ => ⟨?_, start⟩
    refine (kept.follow fun _ _ => trivial).of_reads fun behind _ hread => ?_
    obtain ⟨_, _, word', inner', same, split, _, sameFunction, _⟩ := start.named named
    cases same
    refine (Reads.nextKind _).bind ?_
    rw [if_pos (call behind)]
    rw [split] at hread ⊢
    refine .current_bind fun token (same : token.word = word') => ?_
    rw [function same, sameFunction]
    exact hread
  · refine .map ((qualifiedName_kept words).mono fun name rest ⟨kept, start⟩ => ⟨?_, start⟩)
    refine .of_reads (.map Expr.column (kept.follow fun _ h => h.1)) fun behind hbehind hread => ?_
    refine (Reads.nextKind _).bind ?_
    have column : secondKind (name.words ++ behind) ≠ .leftParen := by
      obtain ⟨qualifier, name⟩ := name
      cases qualifier with
      | nil =>
        rw [show QualifiedName.words ⟨[], name⟩ = [name.word] from rfl, List.cons_append,
          secondKind_cons]
        exact hbehind.2
      | cons part qualifier => exact nofun
    rw [if_neg column]
    exact hread

/-- An operand that is told by its kind is kept. -/
theorem primaryOf_kept (words : List Word) :
    Ensures (primaryOf apply (firstKind words)) words fun expr rest =>
      Kept (primaryOf apply (firstKind words)) (expr.words false)
        (fun behind => firstKind behind ≠ .dot ∧ firstKind behind ≠ .leftParen) words expr rest ∧
      SameStart words (expr.words false) ∧ firstKind words ∉ literalKinds := by
  -- behind most operands anything may stand
  have ruled {kind : TokenKind} {q : Parser Expr} (noLiteral : kind ∉ literalKinds)
      (h : Ensures q words fun expr rest =>
        Kept q (expr.words false) (fun _ => True) words expr rest ∧
        SameStart words (expr.words false)) :
      Ensures q words fun expr rest =>
        Kept q (expr.words false)
          (fun behind => firstKind behind ≠ .dot ∧ firstKind behind ≠ .leftParen) words expr rest ∧
        SameStart words (expr.words false) ∧ kind ∉ literalKinds :=
    h.mono fun _ _ ⟨kept, start⟩ => ⟨kept.follow fun _ _ => trivial, start, noLiteral⟩
  have aggregates (h : firstKind words ∈ startKinds) :
      Ensures (apply .aggregate) words fun expr rest =>
        Kept (apply .aggregate) (expr.words false) (fun _ => True) words expr rest ∧
        SameStart words (expr.words false) :=
    (keeps.preserves .aggregate words h).mono fun _ _ ⟨kept, start, _⟩ => ⟨kept, start⟩
  have names (h : (firstKind words).isIdentifier = true) {kind : TokenKind}
      (noLiteral : kind ∉ literalKinds) :
      Ensures (nameOrCall apply) words fun expr rest =>
        Kept (nameOrCall apply) (expr.words false)
          (fun behind => firstKind behind ≠ .dot ∧ firstKind behind ≠ .leftParen) words expr rest ∧
        SameStart words (expr.words false) ∧ kind ∉ literalKinds :=
    (nameOrCall_kept keeps h).mono fun _ _ ⟨kept, start⟩ => ⟨kept, start, noLiteral⟩
  generalize hkind : firstKind words = kind at aggregates names ⊢
  unfold primaryOf
  split
  · exact ruled (by decide) (parenthesis_kept keeps hkind)
  · exact ruled (by decide) ((keeps.preserves .case words trivial).mono fun _ _ ⟨kept, start, _⟩ => ⟨kept, start⟩)
  · exact ruled (by decide) ((keeps.preserves .cast words trivial).mono fun _ _ ⟨kept, start, _⟩ => ⟨kept, start⟩)
  · exact ruled (by decide)
      ((keeps.preserves .exists words trivial).mono fun _ _ ⟨kept, start, _⟩ => ⟨kept, start⟩)
  · exact ruled (by decide) (aggregates (by decide))
  · exact ruled (by decide) (aggregates (by decide))
  · exact ruled (by decide) (aggregates (by decide))
  · exact ruled (by decide) (aggregates (by decide))
  · exact ruled (by decide) (aggregates (by decide))
  · exact names rfl (by decide)
  · exact names rfl (by decide)
  · exact .failExpecting

/-- An operand without prefix operator is kept. -/
theorem primary_kept (words : List Word) :
    Ensures (primary true apply) words fun expr rest =>
      Kept (primary true apply) (expr.words false)
        (fun behind => firstKind behind ≠ .dot ∧ firstKind behind ≠ .leftParen) words expr rest ∧
      SameStart words (expr.words false) := by
  rw [primary_eq]
  refine .current_bind fun token first hword => ?_
  cases hliteral : token.literal? with
  | some value =>
    have literal : token.kind ∈ literalKinds :=
      Decidable.byContradiction fun h => by simp [Token.literal?_eq_none h] at hliteral
    have present : token.kind ≠ .eof := fun h => by
      rw [h] at literal
      exact absurd literal (by decide)
    obtain ⟨word, inner, rfl, hkind⟩ := exists_cons_of_firstKind present first.symm
    obtain ⟨same, sound⟩ := hword word inner rfl
    have same' : token.word = word.token.word := same
    obtain ⟨spelled, again⟩ := sound.literal value (Token.literal?_of_word same' ▸ hliteral)
    have written : value.word.kind = word.kind := by
      rw [Token.kind_of_literal? hliteral, hkind]
    have started : word.kind ∈ startKinds ∧ word.kind ≠ .leftParen := by
      rw [hkind]
      generalize token.kind = kind at literal
      revert kind
      decide
    refine .advance_bind fun _ _ _ => .pure ?_
    rw [show (Expr.literal value).words false = _ from Literal.words_eq spelled again]
    refine ⟨⟨fun other hother => ?_, ?_, fun behind _ => ?_⟩, .other started.1 written⟩
    · rw [List.mem_singleton.mp hother]
      exact spelled
    · simp [written, started.2]
    · refine .current_bind fun token same => ?_
      rw [Token.literal?_of_word (show token.word = value.word.token.word from same), again]
      exact Reads.advance_bind fun _ _ => .pure _ _
  | none =>
    rw [first]
    refine (primaryOf_kept keeps words).mono fun expr rest ⟨kept, start, noLiteral⟩ => ⟨?_, start⟩
    refine kept.of_reads fun behind _ hread => ?_
    have noLiteral' : firstKind (expr.words false ++ behind) ∉ literalKinds := by
      rw [start.firstKind_append, start.firstKind_congr (· ∈ literalKinds) (by decide)]
      exact noLiteral
    have same : primaryOf apply (firstKind (expr.words false ++ behind)) =
        primaryOf apply (firstKind words) := by
      rw [start.firstKind_append]
      exact start.firstKind_congr (primaryOf apply) rfl
    refine .current_kind_bind fun token first => ?_
    rw [Token.literal?_eq_none (first ▸ noLiteral'), first, same]
    exact hread

/-- An operand is kept; behind an operand with a prefix operator, what ended the run of operators
has to end it again. -/
theorem operand_kept (words : List Word) :
    Ensures (operand true apply) words fun expr rest =>
      Kept (operand true apply) (expr.words false) (Follow rest) words expr rest ∧
      SameStart words (expr.words false) := by
  refine .reads_bind (.currentKind words) ?_
  cases hop : UnaryOp.ofToken? (firstKind words) with
  | some op =>
    obtain ⟨token, isStart, noParen⟩ :
        firstKind words = op.token ∧ op.token ∈ startKinds ∧ op.token ≠ .leftParen := by
      unfold UnaryOp.ofToken? at hop
      split at hop <;> first | (next hkind => cases hop; exact ⟨hkind, by decide, by decide⟩) | cases hop
    obtain ⟨word, inner, rfl, hkind⟩ := exists_cons_of_firstKind (by cases op <;> nofun) token
    refine .advance_bind fun _ _ _ => .reads_bind (.precedence inner) ?_
    refine .map ((operators_kept keeps _ inner).mono fun expr rest ⟨kept, _⟩ => ?_)
    have spelled : op.token.word.Spelled := by cases op <;> rfl
    refine ⟨(kept.map (Expr.unary op)).cons hkind spelled fun behind _ hread => ?_,
      .other (hkind ▸ isStart) hkind.symm⟩
    refine (Reads.currentKind _).bind ?_
    rw [show UnaryOp.ofToken? (firstKind (op.token.word :: (expr.words false ++ behind))) = some op by
      cases op <;> rfl]
    exact Reads.advance_bind fun _ _ => (Reads.precedence _).bind hread
  | none =>
    refine (primary_kept keeps words).mono fun expr rest ⟨kept, start⟩ => ⟨?_, start⟩
    refine (kept.follow fun _ h => ⟨h.dot, h.leftParen⟩).of_reads fun behind _ hread => ?_
    refine (Reads.currentKind _).bind ?_
    rw [start.firstKind_append, start.firstKind_congr UnaryOp.ofToken? rfl, hop]
    exact hread

omit keeps in
/-- A run of operators is done where no operator goes on with it. -/
theorem reads_operatorStep_done {level : Nat} {words : List Word} {table : PrecedenceTable}
    (left : Expr) (h : Stops level words table) :
    Reads (operatorStep apply level left) words (.done left) words table := by
  unfold Stops at h
  refine (Reads.precedence words).bind ((Reads.currentKind words).bind
    ((Reads.nextKind words).bind ?_))
  split at h
  · next predicate =>
    rw [if_pos predicate, if_pos h]
    exact .pure _ _
  · next predicate =>
    rw [if_neg predicate]
    refine (Reads.currentKind words).bind ?_
    cases hop : table.ofToken? (firstKind words) with
    | none => exact (Reads.noteAll _ _).bind (.pure _ _)
    | some found =>
      obtain ⟨op, binding⟩ := found
      simp only [if_pos (h op binding hop)]
      exact .pure _ _

/-- An operator of a run, or the end of the run, is kept. -/
theorem operatorStep_kept (level : Nat) (left : Expr) (words : List Word) :
    Ensures (operatorStep apply level left) words (AfterStep
      (fun next rest => ∃ bare, bare ≠ [] ∧ rest.length < words.length ∧
        next.words false = left.words false ++ bare ∧
        Kept (operatorStep apply level left) bare (Follow rest) words (.more next) rest ∧
        ∀ behind, Follow rest behind → Follow words (bare ++ behind))
      (fun final rest => final = left ∧
        Kept (operatorStep apply level left) [] (Follow rest) words (.done left) rest ∧
        ∀ behind, Follow rest behind → Follow words behind)) := by
  have stopped (h : Stops level words) :
      Kept (operatorStep apply level left) [] (Follow words) words (.done left) words :=
    ⟨fun _ h => absurd h List.not_mem_nil, by simp,
      fun behind hbehind => reads_operatorStep_done left (hbehind.stops level h)⟩
  refine .reads_bind (.precedence words) (.reads_bind (.currentKind words)
    (.reads_bind (.nextKind words) (.ite (fun predicate => ?_) fun noPredicate => ?_)))
  · refine .ite (fun looser => .pure ⟨rfl, stopped ?_, fun _ h => h⟩) fun tight => ?_
    · exact (stops_iff_of_predicate predicate).mpr looser
    · refine .map ((predicateTail_kept keeps left _ words).mono fun next rest => ?_)
      rintro ⟨bare, shorter, hwords, kept, first, nonempty, second⟩
      have plain : firstKind words ≠ .dot ∧ firstKind words ≠ .leftParen := by
        constructor <;> intro h <;> rw [h] at predicate <;> cases predicate
      have first' (behind : List Word) : firstKind (bare ++ behind) = firstKind words := by
        cases bare with
        | nil => exact absurd rfl nonempty
        | cons _ _ => exact first
      refine ⟨bare, nonempty, shorter, hwords, ?_, fun behind _ =>
        .of_same (first' behind) (fun not => second not behind) plain.1 plain.2⟩
      refine kept.of_reads fun behind _ hread => ?_
      have predicate' : startsPredicate (firstKind (bare ++ behind)) (secondKind (bare ++ behind)) =
          true := by
        rw [first']
        by_cases not : firstKind words = .keyword .NOT
        · rw [second not]
          exact predicate
        · rw [startsPredicate_of_ne not _ (secondKind words)]
          exact predicate
      refine (Reads.precedence _).bind ((Reads.currentKind _).bind ((Reads.nextKind _).bind ?_))
      rw [if_pos predicate', if_neg tight]
      exact hread.map Step.more
  · refine .reads_bind (.currentKind words) ?_
    cases hop : PrecedenceTable.adql.ofToken? (firstKind words) with
    | none =>
      refine .reads_bind (.noteAll _ words) (.pure ⟨rfl, stopped ?_, fun _ h => h⟩)
      rw [stops_iff_of_no_predicate noPredicate, hop]
      exact fun _ _ => nofun
    | some found =>
      obtain ⟨op, binding⟩ := found
      refine .ite (fun looser => .pure ⟨rfl, stopped ?_, fun _ h => h⟩) fun tight => ?_
      · rw [stops_iff_of_no_predicate noPredicate, hop]
        rintro _ _ ⟨⟩
        exact looser
      · have token : firstKind words = op.token := by
          obtain ⟨op', hop', hbinding⟩ := Option.bind_eq_some_iff.mp hop
          obtain ⟨_, _, same⟩ := Option.bind_eq_some_iff.mp hbinding
          cases same
          exact BinaryOp.eq_token_of_ofToken? hop'
        obtain ⟨word, inner, rfl, hkind⟩ :=
          exists_cons_of_firstKind (by cases op <;> nofun) token
        refine .advance_bind fun _ _ _ => ?_
        refine ((operators_kept keeps _ inner).length_le (keeps.moves _)).bind ?_
        rintro right rest ⟨⟨kept, _⟩, shorter⟩
        have plain : op.token ≠ .leftParen ∧ op.token ≠ .dot ∧ op.token ≠ .keyword .NOT ∧
            op.token.word.Spelled := by
          cases op <;> exact ⟨nofun, nofun, nofun, rfl⟩
        obtain ⟨noParen, noDot, noNot, spelled⟩ := plain
        refine .pure ⟨op.token.word :: right.words false, List.cons_ne_nil _ _,
          Nat.lt_succ_of_le shorter, rfl, ?_, fun behind _ =>
            .of_same hkind.symm (fun h => absurd (token.symm.trans h) noNot)
              (by rw [token]; exact noDot) (by rw [token]; exact noParen)⟩
        rw [firstKind_cons, hkind] at hop
        refine kept.cons hkind spelled fun behind _ hread => ?_
        refine (Reads.precedence _).bind ((Reads.currentKind _).bind ((Reads.nextKind _).bind ?_))
        have noPredicate' (next : TokenKind) : ¬startsPredicate op.token next = true := by
          rw [startsPredicate_of_ne noNot next (secondKind (word :: inner)), ← hkind]
          exact noPredicate
        rw [firstKind_cons, show op.token.word.kind = op.token from rfl,
          if_neg (noPredicate' _)]
        refine (Reads.currentKind _).bind ?_
        rw [firstKind_cons, show op.token.word.kind = op.token from rfl, hop]
        simp only [if_neg tight]
        exact Reads.advance_bind fun _ _ => hread.bind (.pure _ _)

/-- Operands joined by operators are kept. -/
theorem joined_kept (level : Nat) (words : List Word) :
    Ensures (operators true apply level) words fun expr rest =>
      Kept (operators true apply level) (expr.words false) (Follow rest) words expr rest ∧
      SameStart words (expr.words false) := by
  refine (operand_kept keeps words).bind fun first middle ⟨keptFirst, start⟩ => ?_
  have loop := Ensures.iterate_kept (operatorStep apply level) first middle (H := Follow)
    (D := Follow) (P := fun expr emitted => expr.words false = first.words false ++ emitted)
    (Q := fun expr emitted => expr.words false = first.words false ++ emitted)
    (List.append_nil _).symm fun left emitted words hemitted => by
      refine (operatorStep_kept keeps level left words).mono fun step rest hstep => ?_
      cases step with
      | more next =>
        obtain ⟨bare, nonempty, shorter, hwords, kept, links⟩ := hstep
        exact ⟨bare, nonempty, shorter, by rw [hwords, hemitted, List.append_assoc], kept, links⟩
      | done final =>
        obtain ⟨rfl, kept, links⟩ := hstep
        exact ⟨[], by rw [hemitted, List.append_nil], kept, links⟩
  refine loop.mono fun expr rest ⟨bare, hwords, kept, links⟩ => ?_
  rw [hwords]
  have ended := links [] (.of_ends rfl)
  rw [List.append_nil] at ended
  exact ⟨keptFirst.bind kept links, start.append ended.dot⟩

end

end Adql
