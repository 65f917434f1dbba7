import Adql.Proofs.Readable.Accepting
import Adql.Proofs.Readable.Tree

/-!
# Expressions with queries and signs are read

The words of an expression may be read as another expression: a negative number is read as a sign in
front of a number, and a pair of parentheses is read as a node of its own.  Here it does not matter
what they are read as (`Expr.Anything`).  What is known of the queries in an expression is that their
words are accepted, with and without parentheses around them (`Query.Legible`); so an expression with
a query is restored as any other is.
-/

namespace Adql

open Adql.Parser Adql.Grammar

/-- It does not matter what is read. -/
def Expr.Anything : Expr → Expr → Prop :=
  fun _ _ => True

/-- Whatever is read, it is a likeness. -/
instance : Expr.Likeness Expr.Anything := by
  constructor <;> intros <;> trivial

/-- The words of the query are accepted as a query, and in parentheses as an operand. -/
structure Query.Legible (query : Query) : Prop where
  /-- The words are accepted in front of what ends queries. -/
  accepts : Accepts (apply true · .query) (query.words true) (firstKind · ∈ afterQuery)
  /-- In parentheses, the words are accepted as an operand, whatever follows them. -/
  parenthesis : Accepts (fun allowance => parenthesis true (apply true allowance))
    (enclosed (query.words true)) Anywhere
  /-- A query that starts with a word starts with a word for queries. -/
  starts : query.startsBare = true → ∀ behind,
    startsQuery (firstKind (query.words true ++ behind)) = true

/-- A query in parentheses is accepted. -/
theorem Query.Legible.parenthesized {query : Query} (h : query.Legible) :
    Accepts (fun allowance => parenthesizedQuery (apply true allowance))
      (enclosed (query.words true)) Anywhere :=
  h.accepts.inParentheses fun _ => show TokenKind.rightParen ∈ afterQuery by decide

/-- No binary operator or predicate binds as tight as a sign. -/
theorem stops_of_tight {level : Nat} (tight : 10 < level) (words : List Word) :
    Stops level words := by
  unfold Stops
  split
  · exact Nat.lt_trans (show predicateLevel < 10 by decide) tight
  · intro op binding found
    obtain ⟨op', _, found⟩ := Option.bind_eq_some_iff.mp found
    rw [PrecedenceTable.binding?_adql] at found
    cases found
    exact Nat.lt_of_le_of_lt (PrecedenceTable.binaryLevel_adql_le op) tight

/-- What holds of the conditions and of the results of branches holds of all their parts. -/
theorem Branch.forall_mem_exprs {p : Expr → Prop} {branches : List Branch}
    (conditions : ∀ branch ∈ branches, p branch.condition)
    (results : ∀ branch ∈ branches, p branch.result) : ∀ expr ∈ exprs branches, p expr := by
  intro expr hexpr
  obtain ⟨branch, hbranch, hexpr⟩ := List.mem_flatMap.mp hexpr
  rcases List.mem_pair.mp hexpr with rfl | rfl
  · exact conditions branch hbranch
  · exact results branch hbranch

namespace Expr

/-! ### Literals -/

/-- A literal may stand bare wherever a sign may. -/
theorem looserThan_literal (value : Literal) {minLevel : Nat}
    (loose : minLevel ≤ PrecedenceTable.adql.unaryLevel) :
    (literal value).looserThan minLevel = false := by
  rw [looserThan, decide_eq_false_iff_not, Nat.not_lt, level]
  split
  · exact loose
  · exact Nat.le_trans loose (by decide)

/-- A literal that is written as a sign and another literal is restored. -/
theorem Restored.signed {value magnitude : Literal}
    (words : value.words = [TokenKind.minus.word, magnitude.word])
    (spelled : magnitude.word.Spelled) (again : magnitude.word.token.literal? = some magnitude) :
    (Expr.literal value).Restored Anything := by
  have unsigned : (Expr.literal magnitude).Restored Anything := .literal spelled again
  have signed : (Expr.unary .neg (.literal magnitude)).Restored Anything := unsigned.unary
  have bare : (Expr.literal magnitude).looserRight (PrecedenceTable.adql.prefixLevel .neg) =
      false := by
    rw [looserRight, looserThan_literal _ (show _ ≤ PrecedenceTable.adql.unaryLevel by decide)]
    rfl
  have same : (Expr.literal value).words true =
      (Expr.unary .neg (.literal magnitude)).words true := by
    rw [Expr.words, words, Expr.words, Expr.words, Literal.words_eq spelled again, bare]
    rfl
  have tight : 10 < (Expr.unary .neg (.literal magnitude)).openLevel := by
    rw [openLevel, bare]
    exact show 10 < min PrecedenceTable.adql.unaryLevel atomLevel by decide
  have closed : (Expr.unary .neg (.literal magnitude)).endsInPattern = false := by
    rw [endsInPattern, bare]
    rfl
  unfold Restored at signed ⊢
  rw [same]
  refine signed.mono (fun _ _ => .inr rfl) fun behind ends => ?_
  exact ⟨ends.dot, ends.leftParen, stops_of_tight tight behind, fun inPattern =>
    absurd (closed.symm.trans inPattern) Bool.false_ne_true⟩

/-- A readable literal is restored. -/
theorem Restored.of_readable {value : Literal} (h : value.Readable) :
    (Expr.literal value).Restored Anything := by
  cases h with
  | unsigned spelled again => exact .literal spelled again
  | signed words spelled again => exact .signed words spelled again

/-! ### Queries -/

/-- An expression whose words are accepted as an operand is restored. -/
theorem Restored.of_accepts {expr : Expr} (starts : StartsOperand (expr.words true))
    (h : Accepts (fun allowance => operand true (apply true allowance)) (expr.words true)
      Anywhere) : expr.Restored Anything := by
  obtain ⟨value, depth, reads⟩ := h.reads
  exact .of_operand h.spelled starts value trivial depth fun allowance enough behind _ =>
    reads allowance enough behind trivial

/-- A query that stands for a value is restored. -/
theorem Restored.subquery {query : Query} (h : query.Legible) :
    (Expr.subquery query).Restored Anything := by
  have noLiteral : TokenKind.leftParen ∉ literalKinds := by decide
  refine .of_accepts (.enclosed _) (h.parenthesis.change id fun _ _ _ _ reads => ?_)
  exact reads_operand rfl noLiteral reads

/-- A test whether a query has rows is restored. -/
theorem Restored.exists {query : Query} (h : query.Legible) :
    (Expr.exists query).Restored Anything := by
  have starts : TokenKind.keyword .EXISTS ∈ operandStart ∧
      TokenKind.keyword .EXISTS ∉ literalKinds := by decide
  have existence : Accepts (apply true · .exists)
      (Keyword.EXISTS.word :: enclosed (query.words true)) Anywhere :=
    .apply (.expectWord (h.parenthesized.map Expr.exists))
  refine .of_accepts (.of_word starts.1 _) (existence.change id fun _ _ _ _ reads => ?_)
  exact reads_operand rfl starts.2 reads

/-- A membership test in a query is restored, if the query starts with a word. -/
theorem Restored.inQuery {operand : Expr} {query : Query} {negated : Bool}
    (hoperand : operand.Restored Anything)
    (closed : operand.looserThan predicateLevel = false → predicateLevel < operand.openLevel)
    (h : query.Legible) (bare : query.startsBare = true) :
    (Expr.inQuery operand query negated).Restored Anything := by
  obtain ⟨value, depth, reads⟩ := h.accepts.reads
  refine hoperand.negatable closed rfl rfl rfl rfl (spelled_enclosed h.accepts.spelled)
    (fun tree => .inQuery tree value negated) (fun _ _ => trivial) depth
    fun allowance enough tree behind _ => ?_
  have read := reads allowance enough (TokenKind.rightParen.word :: behind)
    (show TokenKind.rightParen ∈ afterQuery by decide)
  have shape : enclosed (query.words true) ++ behind =
      TokenKind.leftParen.word :: (query.words true ++ TokenKind.rightParen.word :: behind) := by
    simp [enclosed]
  rw [shape]
  refine (Reads.eat_false (firstKind_keyword_ne (by decide) _)).bind ((Reads.eat_true rfl).bind ?_)
  refine .expect_bind rfl ((Reads.currentKind _).bind ?_)
  rw [if_pos (h.starts bare _)]
  exact read.bind (.expect_bind rfl (.pure _ _))

/-! ### Places of expressions -/

/-- What is restored is accepted as an expression, in front of what ends expressions. -/
theorem Restored.accepts {expr : Expr} (h : expr.Restored Anything) :
    Accepts (apply true · .expression) (expr.words true)
      (fun behind => endsExpression (firstKind behind) = true) := by
  obtain ⟨tree, _, depth, reads⟩ := h.expression (.inl (Nat.zero_le _)) fun _ => .of_ends
  exact ⟨h.spelled, tree, depth, reads⟩

end Expr

/-- Expressions with commas between them are accepted if each of them is restored. -/
theorem accepts_expressions {exprs : List Expr} (h : ∀ expr ∈ exprs, expr.Restored Expr.Anything)
    (nonempty : exprs ≠ []) :
    Accepts (fun allowance => expressions (apply true allowance))
      (separated .comma (Expr.wordsList true exprs))
      (fun behind => endsExpression (firstKind behind) = true ∧ firstKind behind ≠ .comma) := by
  rw [Expr.wordsList_eq_map]
  exact .oneOrMore rfl nonempty (fun expr hexpr => (h expr hexpr).accepts) (fun _ => rfl)
    fun _ ends => ends

end Adql
