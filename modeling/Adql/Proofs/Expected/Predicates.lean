import Adql.Proofs.Expected.InVain
import Adql.Proofs.Expected.Parentheses
import Adql.Proofs.Expressions.Runs
import Adql.Proofs.Shape.Expressions

/-!
# Predicates

Whatever is looked for inside a predicate behind its operand really helps: the members behind `IN`, told
by the first token behind the parenthesis, the bounds of `BETWEEN`, the pattern of `LIKE`, and `NULL`.
-/

namespace Adql

open Adql.Parser Adql.Grammar

/-! ### Predicates -/

/-- `AND` ends a run of operators that bind tighter than it. -/
theorem and_mem_runFollows {level : Nat} (tight : PrecedenceTable.adql.notLevel ≤ level) :
    .keyword .AND ∈ runFollows level := by
  refine ⟨by decide, by decide, ?_⟩
  rintro op binding ⟨⟩
  change 2 < min level 3
  exact lt_min (Nat.lt_of_lt_of_le (by decide) tight) (by decide)

/-- `ESCAPE` ends no run of operators. -/
theorem escape_not_mem_runFollows (level : Nat) : .keyword .ESCAPE ∉ runFollows level :=
  fun ⟨_, others, _⟩ => others (by decide)

section

variable (apply : (rule : Rule) → Parser rule.Result)

/-- A query behind `IN` and its parenthesis. -/
def queryMembers (operand : Expr) (negated : Bool) : Parser Expr := do
  let query ← apply .query
  let _ ← expect .rightParen
  pure (.inQuery operand query negated)

/-- A list behind `IN` and its parenthesis. -/
def listMembers (operand : Expr) (negated : Bool) : Parser Expr := do
  let items ← expressions apply
  let _ ← expect .rightParen
  pure (.inList operand items negated)

/-- Behind `IN` and its parenthesis, the first token tells a query from a list. -/
def members (operand : Expr) (negated : Bool) : Parser Expr := do
  if startsQuery (← currentKind) then queryMembers apply operand negated
  else listMembers apply operand negated

/-- What follows the word `IN` stands in parentheses. -/
theorem inTail_eq (operand : Expr) (negated : Bool) :
    inTail apply operand negated = (expect .leftParen >>= fun _ => members apply operand negated) :=
  rfl

end

section

variable {F : Set TokenKind} {size rank n level : Nat} (h : HelpfulRules size rank n)
  (operand : Expr) (negated : Bool)

/-- An expression that starts with a parenthesis can be completed. -/
theorem closes_expression_parenthesis (deep : 5 ≤ n) :
    Closes {.leftParen} {.rightParen} (Grammar.apply true n .expression) := by
  obtain ⟨less, rfl⟩ : ∃ less, n = less + 3 + 2 := ⟨n - 5, by omega⟩
  refine ⟨[TokenKind.leftParen.word, nameWord, TokenKind.rightParen.word], _,
    List.forall_mem_cons.mpr ⟨rfl, List.forall_mem_cons.mpr
      ⟨spelled_nameWord, List.forall_mem_singleton.mpr rfl⟩⟩, fun behind follows =>
    ⟨rfl, reads_expression_of_parenthesis rfl ?_ (reads_parenthesis_name rfl rfl behind)⟩⟩
  rw [show firstKind behind = .rightParen from follows]
  rfl

include h

/-- A query behind `IN` and its parenthesis. -/
theorem ready_queryMembers :
    Ready (size - 1) {.keyword .SELECT} F (queryMembers (Grammar.apply true n) operand negated) :=
  h.query.bind fun _ => .expect_bind rfl (.done _)

/-- A list behind `IN` and its parenthesis. -/
theorem ready_listMembers :
    Ready (size - 1) {.identifier} F (listMembers (Grammar.apply true n) operand negated) :=
  have items : Ready (size - 1) {.identifier} {.rightParen} (expressions (Grammar.apply true n)) :=
    ready_expressions h (singleton_subset_runEnds rfl 0) nofun
  items.bind fun _ => .expect_bind rfl (.done _)

/-- Any kind that starts a query can follow `IN` and its parenthesis. -/
theorem offers_members {kind : TokenKind} (start : kind ∈ queryStart) :
    Offers Set.univ (members (Grammar.apply true n) operand negated) [] kind := by
  have deep := h.deep
  have known : ∀ kind ∈ queryStart, TokenKind.rightParen ≠ kind := by decide
  have differs := known kind start
  have closing (expr : Expr) : Closes {.rightParen} Set.univ (do
      let _ ← expect .rightParen
      pure expr) := .expect_bind (.pure (G := Set.univ) subset_rfl expr) rfl
  by_cases paren : kind = .leftParen
  · subst paren
    have item := closes_expression_parenthesis (n := n) (by omega)
    have differs' : TokenKind.comma ≠ .rightParen := nofun
    have list : Closes {.leftParen} Set.univ (listMembers (Grammar.apply true n) operand negated) :=
      (item.oneOrMore differs').bind fun _ => closing _
    refine (list.offers differs trivial).of_reads fun behind expr first final reads => ?_
    refine (Reads.currentKind _).bind ?_
    rw [List.nil_append, first]
    exact reads
  · have words : ∀ kind ∈ queryStart, kind ≠ .leftParen → startsQuery kind = true := by decide
    have inner : Closes {kind} {.rightParen} (Grammar.apply true n .query) :=
      (closes_queryStart (by omega) start).mono subset_rfl (Set.singleton_subset_iff.mpr List.mem_cons_self)
    have query : Closes {kind} Set.univ (queryMembers (Grammar.apply true n) operand negated) :=
      inner.bind fun _ => closing _
    refine (query.offers differs trivial).of_reads fun behind expr first final reads => ?_
    refine (Reads.currentKind _).bind ?_
    rw [List.nil_append, first, if_pos (words kind start paren)]
    exact reads

/-- What stands behind `IN` and its parenthesis. -/
theorem helpful_members :
    Helpful (size - 1) Set.univ (members (Grammar.apply true n) operand negated) := by
  have query := (ready_queryMembers h operand negated (F := Set.univ)).toHelpful
  have list := (ready_listMembers h operand negated (F := Set.univ)).toHelpful
  have deep := h.deep
  refine ⟨.bind (.of_same fun _ => rfl) fun kind => query.beyond.ite list.beyond, fun front few => ?_⟩
  cases front with
  | cons word front =>
    by_cases starts : startsQuery word.kind = true
    · obtain ⟨outcome, honest⟩ := query.honest (word :: front) few
      exact ⟨outcome, .currentKind_bind (by rwa [if_pos starts])⟩
    · obtain ⟨outcome, honest⟩ := list.honest (word :: front) few
      exact ⟨outcome, .currentKind_bind (by rwa [if_neg starts])⟩
  | nil =>
    obtain ⟨outcome, honest⟩ := list.honest [] few
    obtain ⟨outcome', honest'⟩ := query.honest [] few
    have words : ∀ kind ∈ TokenKind.all, kind ∉ queryStart → startsQuery kind = false := by decide
    have stalls (behind : List Word) (others : firstKind behind ∉ queryStart) :
        Stalls (queryMembers (Grammar.apply true n) operand negated) ([] ++ behind) :=
      .bind_left (stalls_query others (by omega))
    have decided (session : Session) : members (Grammar.apply true n) operand negated session =
        (if startsQuery session.current.kind then queryMembers (Grammar.apply true n) operand negated
          else listMembers (Grammar.apply true n) operand negated) session := rfl
    refine ⟨outcome, honest.dispatch queryStart (fun good behind session faces others => ?_)
      (fun kind start => offers_members h operand negated start) fun session behind position splits _ => ?_⟩
    · have current : session.current.kind = firstKind behind := faces.current_kind
      rw [decided, current, words _ (TokenKind.mem_all _) others, if_neg Bool.false_ne_true]
    · rw [decided]
      split
      · have noEnd : TokenKind.eof ∉ queryStart := by decide
        exact (honest'.gets_of_stalls stalls noEnd (Set.mem_univ .comma) splits).of_none.mono fun _ => .inr
      · exact (honest.gets session behind position splits).mono fun kind noted =>
          .inl (noted.elim id fun never => never.1.elim)

/-- What follows the word `IN`. -/
theorem ready_inTail :
    Ready (size - 1) {.leftParen} F (inTail (Grammar.apply true n) operand negated) := by
  have start : TokenKind.keyword .SELECT ∈ queryStart := by decide
  have members : Ready (size - 1) {.keyword .SELECT} Set.univ
      (members (Grammar.apply true n) operand negated) :=
    ⟨helpful_members h operand negated, .of_offers (offers_members h operand negated start) rfl⟩
  rw [inTail_eq]
  exact .expect_bind rfl ((members.of_le (Nat.sub_le _ 1)).mono subset_rfl (Set.subset_univ F))

variable (tight : PrecedenceTable.adql.notLevel ≤ level)

/-- What follows the word `LIKE` or `ILIKE`. -/
theorem ready_likeTail (caseInsensitive : Bool) : Ready (size - 1) {.identifier} (runFollows level)
    (likeTail (Grammar.apply true n) operand negated caseInsensitive level) := by
  have run : Ready (size - 1) {.identifier} (runFollows level)
      (Grammar.apply true n (.operators level)) := h.readyLater (.operators level) rfl
  have escape : Ready (size - 1) (runFollows level) (runFollows level)
      (afterWord .ESCAPE none (some <$> Grammar.apply true n (.operators level))) :=
    .afterWord (.map (run.of_le (Nat.sub_le _ 1))) (escape_not_mem_runFollows level)
  exact run.bind fun _ => escape.bind fun _ => .pure subset_rfl _

include tight

/-- What follows the word `BETWEEN`. -/
theorem ready_betweenTail : Ready (size - 1) {.identifier} (runFollows level)
    (betweenTail (Grammar.apply true n) operand negated level) := by
  have run : Ready (size - 1) {.identifier} (runFollows level)
      (Grammar.apply true n (.operators level)) := h.readyLater (.operators level) rfl
  have high (low : Expr) : Ready (size - 1) {.keyword .AND} (runFollows level) (do
      expectWord .AND
      let high ← Grammar.apply true n (.operators level)
      pure (Expr.between operand low high negated)) :=
    .expectWord_bind ((run.of_le (Nat.sub_le _ 1)).bind fun _ => .pure subset_rfl _)
  exact (run.mono subset_rfl (Set.singleton_subset_iff.mpr (and_mem_runFollows tight))).bind high

/-- A predicate that can be negated, behind the word for the negation. -/
theorem ready_negatableTail : Ready size {.keyword .BETWEEN} (runFollows level)
    (negatableTail (Grammar.apply true n) operand level negated) :=
  .eat_found rfl (ready_betweenTail h operand negated tight) <|
    .eat_bind rfl (ready_inTail h operand negated) <|
      .eat_bind rfl (ready_likeTail h operand negated false) <|
        .eat_bind rfl (ready_likeTail h operand negated true) .fail

/-- The postfix part of a predicate. -/
theorem helpful_predicateTail :
    Helpful size (runFollows level) (predicateTail (Grammar.apply true n) operand level) := by
  have null : Ready (size - 1) {.keyword .NULL} (runFollows level) (do
      let negated ← eatWord .NOT
      expectWord .NULL
      return Expr.isNull operand negated) := by
    have word (negated : Bool) : Ready (size - 1) {.keyword .NULL} (runFollows level) (do
        expectWord .NULL
        return Expr.isNull operand negated) := .expectWord_bind (.done _)
    exact .eat_missed rfl ((word true).of_le (Nat.sub_le _ 1)) (word false) nofun
  have negatable (negated : Bool) : Ready size {.keyword .BETWEEN} (runFollows level)
      (negatableTail (Grammar.apply true n) operand level negated) :=
    ready_negatableTail h operand negated tight
  rw [predicateTail_eq]
  exact .eat_bind rfl null (.eat_bind rfl ((negatable true).of_le (Nat.sub_le _ 1))
    (negatable false).toHelpful)

end

end Adql
