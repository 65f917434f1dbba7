import Adql.Proofs.Expressions.Runs
import Adql.Proofs.Expressions.Stripped
import Adql.Proofs.RoundTrip.Parentheses
import Adql.Proofs.RoundTrip.Sources

/-!
# Printed operands are read back

A printed expression is read back as an expression that is like it (`Expr.Likeness`), for instance up
to the parentheses that the printer adds.  What the words of an expression are read as depends on the level of the run of operators in which they stand and on what
stands behind them: an operator behind them goes on with every run that the words leave open at
their end (`Expr.openLevel`).  `Restores` says that words are read as the expression wherever they
may stand, and there is one lemma for each way to build an expression: if its parts are restored and
nothing goes on with them that does not belong to them, it is restored.
-/

namespace Adql

open Adql.Parser Adql.Grammar

/-! ### Levels -/

namespace PrecedenceTable

/-- All operators of the language group to the left. -/
theorem binding?_adql (op : BinaryOp) : adql.binding? op = some ⟨adql.binaryLevel op, .left⟩ := by
  cases op <;> rfl

/-- A right operand binds tighter than the operator. -/
theorem rightLevel_adql (op : BinaryOp) : adql.rightLevel op = adql.binaryLevel op + 1 := by
  cases op <;> rfl

/-- No binary operator binds as tight as a sign. -/
theorem binaryLevel_adql_le (op : BinaryOp) : adql.binaryLevel op ≤ 10 := by
  cases op <;> decide

end PrecedenceTable

namespace Expr

/-- The loosest level of the runs of operators that the printed expression leaves open at its end:
an operator behind it that binds at this level or tighter goes on with one of them. -/
def openLevel : Expr → Nat
  | .binary _ op right =>
    min (PrecedenceTable.adql.rightLevel op)
      (if right.looserRight (PrecedenceTable.adql.rightLevel op) then atomLevel
        else right.openLevel)
  | .unary op operand =>
    min (PrecedenceTable.adql.prefixLevel op)
      (if operand.looserRight (PrecedenceTable.adql.prefixLevel op) then atomLevel
        else operand.openLevel)
  | .between _ _ high _ =>
    min (predicateLevel + 1)
      (if high.looserThan (predicateLevel + 1) then atomLevel else high.openLevel)
  | .like _ pattern none _ _ =>
    min (predicateLevel + 1)
      (if pattern.looserThan (predicateLevel + 1) then atomLevel else pattern.openLevel)
  | .like _ _ (some escape) _ _ =>
    min (predicateLevel + 1)
      (if escape.looserThan (predicateLevel + 1) then atomLevel else escape.openLevel)
  | _ => atomLevel

/-- Does the printed expression end in a pattern without an escape clause, so that one behind it
belongs to the pattern? -/
def endsInPattern : Expr → Bool
  | .binary _ op right =>
    !right.looserRight (PrecedenceTable.adql.rightLevel op) && right.endsInPattern
  | .unary op operand =>
    !operand.looserRight (PrecedenceTable.adql.prefixLevel op) && operand.endsInPattern
  | .between _ _ high _ => !high.looserThan (predicateLevel + 1) && high.endsInPattern
  | .like _ _ none _ _ => true
  | .like _ _ (some escape) _ _ => !escape.looserThan (predicateLevel + 1) && escape.endsInPattern
  | _ => false

end Expr

/-- What stands behind the printed expression does not go on with it. -/
structure Expr.EndsAt (expr : Expr) (behind : List Word) : Prop where
  /-- No name goes on. -/
  dot : firstKind behind ≠ .dot
  /-- No name becomes a call. -/
  leftParen : firstKind behind ≠ .leftParen
  /-- No run of operators goes on. -/
  stops : Stops expr.openLevel behind
  /-- No pattern gets an escape clause. -/
  escape : expr.endsInPattern = true → firstKind behind ≠ .keyword .ESCAPE

/-- What ends expressions wherever it stands ends the expression. -/
theorem Expr.EndsAt.of_ends {expr : Expr} {behind : List Word}
    (h : endsExpression (firstKind behind) = true) : expr.EndsAt behind := by
  have follow : Follow [] behind := .of_ends h
  exact ⟨follow.dot, follow.leftParen, stops_of_ends h _, fun _ same => by rw [same] at h; cases h⟩

/-- What does not go on with an expression that ends with an operand does not go on with the run of
operators in which the operand stands, nor with the operand if it stands bare. -/
theorem Expr.EndsAt.last {expr : Expr} {level : Nat} {needed : Bool} {behind : List Word}
    (ends : expr.EndsAt behind) (operand : Expr)
    (open' : expr.openLevel = min level (if needed then atomLevel else operand.openLevel))
    (pattern : needed = false → operand.endsInPattern = true → expr.endsInPattern = true) :
    Stops level behind ∧ (needed = false → operand.EndsAt behind) := by
  have stops := ends.stops
  rw [open'] at stops
  refine ⟨stops.mono (Nat.min_le_left _ _), fun bare => ?_⟩
  rw [if_neg (by simp [bare])] at stops
  exact ⟨ends.dot, ends.leftParen, stops.mono (Nat.min_le_right _ _),
    fun inPattern => ends.escape (pattern bare inPattern)⟩

/-! ### Starts -/

/-- A reserved word is no other one. -/
theorem firstKind_keyword_ne {keyword other : Keyword} (h : keyword ≠ other) (words : List Word) :
    firstKind (keyword.word :: words) ≠ .keyword other :=
  fun same => h (TokenKind.keyword.inj same)

/-- The words start as an operand does. -/
structure StartsOperand (words : List Word) : Prop where
  /-- The first word starts an operand. -/
  first : firstKind words ∈ operandStart

namespace StartsOperand

variable {words : List Word}

/-- What stands behind the words is not their start. -/
theorem firstKind_append (h : StartsOperand words) (behind : List Word) :
    firstKind (words ++ behind) = firstKind words := by
  cases words with
  | nil => exact absurd h.first (by decide)
  | cons word rest => rfl

/-- The words do not start with what starts no operand. -/
theorem firstKind_ne (h : StartsOperand words) (behind : List Word) {kind : TokenKind}
    (other : kind ∉ operandStart) : firstKind (words ++ behind) ≠ kind := by
  rw [h.firstKind_append]
  rintro rfl
  exact other h.first

/-- The words do not start like a query. -/
theorem startsQuery_ne (h : StartsOperand words) (behind : List Word) :
    ¬startsQuery (firstKind (words ++ behind)) = true := by
  have none : ∀ kind ∈ operandStart, ¬startsQuery kind = true := by decide
  rw [h.firstKind_append]
  exact none _ h.first

/-- There are such words. -/
theorem ne_nil (h : StartsOperand words) : words ≠ [] := by
  rintro rfl
  exact absurd h.first (by decide)

/-- More words do not change the start. -/
theorem append (h : StartsOperand words) (more : List Word) : StartsOperand (words ++ more) where
  first := h.firstKind_append more ▸ h.first

/-- A word that starts an operand. -/
theorem of_word {word : Word} (first : word.kind ∈ operandStart) (rest : List Word) :
    StartsOperand (word :: rest) where
  first := first

/-- A name starts an operand. -/
theorem of_name {word : Word} (named : word.kind.isIdentifier = true) (rest : List Word) :
    StartsOperand (word :: rest) := by
  refine .of_word ?_ rest
  cases hkind : word.kind with
  | identifier | delimitedIdentifier => decide
  | _ => rw [hkind] at named; cases named

/-- Words in parentheses start as an operand. -/
theorem enclosed (words : List Word) : StartsOperand (enclosed words) where
  first := show TokenKind.leftParen ∈ operandStart by decide

end StartsOperand

/-! ### Words that restore an expression -/

/-- The words are read as an expression that fits, wherever they may stand: at the start of a run of
operators at one of the levels, in front of what may follow.  The run has got so far behind them that
what follows could go on with it. -/
structure Restores (words : List Word) (fits : Expr → Prop) (levels : Nat → Prop)
    (follow : List Word → Prop) : Prop where
  /-- The words can be written. -/
  spelled : ∀ word ∈ words, word.Spelled
  /-- The words start as an operand does. -/
  starts : StartsOperand words
  /-- Where rules may nest deep enough, the words are read. -/
  reads : ∃ tree : Expr, fits tree ∧ ∃ depth, ∀ allowance, depth ≤ allowance →
    ∀ level behind, levels level → follow behind → ∃ first middle,
      Reads (operand true (apply true allowance)) (words ++ behind) first middle ∧
      Repeats .adql (operatorStep (apply true allowance) level) first middle tree behind

/-- What may stand anywhere. -/
abbrev Anywhere {α : Type} : α → Prop :=
  fun _ => True

namespace Restores

variable {words : List Word} {fits fits' : Expr → Prop} {levels levels' : Nat → Prop}
  {follow follow' : List Word → Prop}

/-- Words restore an expression in fewer places. -/
theorem mono (h : Restores words fits levels follow) (hlevels : ∀ level, levels' level → levels level)
    (hfollow : ∀ behind, follow' behind → follow behind) : Restores words fits levels' follow' where
  spelled := h.spelled
  starts := h.starts
  reads := by
    obtain ⟨tree, same, depth, reads⟩ := h.reads
    exact ⟨tree, same, depth, fun allowance enough level behind hlevel hbehind =>
      reads allowance enough level behind (hlevels level hlevel) (hfollow behind hbehind)⟩

/-- Words that are read as one operand restore it at all levels. -/
theorem of_operand (spelled : ∀ word ∈ words, word.Spelled) (starts : StartsOperand words)
    (tree : Expr) (same : fits tree) (depth : Nat)
    (reads : ∀ allowance, depth ≤ allowance → ∀ behind, follow behind →
      Reads (operand true (apply true allowance)) (words ++ behind) tree behind) :
    Restores words fits Anywhere follow where
  spelled := spelled
  starts := starts
  reads := ⟨tree, same, depth, fun allowance enough _ behind _ hbehind =>
    ⟨tree, behind, reads allowance enough behind hbehind, .refl tree behind⟩⟩

/-- Words that restore an expression are read as a run of operators, if nothing goes on with it. -/
theorem run (h : Restores words fits levels follow) {level : Nat} (hlevel : levels level) :
    ∃ tree : Expr, fits tree ∧ ∃ depth, ∀ allowance, depth ≤ allowance →
      ∀ behind, follow behind → Stops level behind →
        Reads (apply true allowance (.operators level)) (words ++ behind) tree behind := by
  obtain ⟨tree, same, depth, reads⟩ := h.reads
  refine ⟨tree, same, depth + 1, fun allowance enough behind hbehind stops => ?_⟩
  obtain ⟨less, rfl⟩ : ∃ less, allowance = less + 1 := ⟨allowance - 1, by omega⟩
  obtain ⟨first, middle, hfirst, steps⟩ := reads less (by omega) level behind hlevel hbehind
  exact reads_operators hfirst steps stops

/-- Words that restore an expression are read as an expression, in front of what ends expressions. -/
theorem expression (h : Restores words fits levels follow) (loosest : levels 0)
    (ends : ∀ behind, endsExpression (firstKind behind) = true → follow behind) :
    ∃ tree : Expr, fits tree ∧ ∃ depth, ∀ allowance, depth ≤ allowance →
      ∀ behind, endsExpression (firstKind behind) = true →
        Reads (apply true allowance .expression) (words ++ behind) tree behind := by
  obtain ⟨tree, same, depth, reads⟩ := h.run loosest
  refine ⟨tree, same, depth + 1, fun allowance enough behind hbehind => ?_⟩
  obtain ⟨less, rfl⟩ : ∃ less, allowance = less + 1 := ⟨allowance - 1, by omega⟩
  exact .apply (reads less (by omega) behind (ends behind hbehind) (stops_of_ends hbehind 0))

/-- An expression in parentheses is read as an operand, however many parentheses it starts with. -/
theorem reads_enclosed {tree : Expr} {allowance : Nat} (starts : StartsOperand words)
    {behind : List Word} (h : Reads (apply true allowance .expression)
      (words ++ TokenKind.rightParen.word :: behind) tree (TokenKind.rightParen.word :: behind)) :
    Reads (operand true (apply true (allowance + 2))) (enclosed words ++ behind) (.paren tree)
      behind := by
  have shape : enclosed words ++ behind =
      TokenKind.leftParen.word :: (words ++ TokenKind.rightParen.word :: behind) := by
    simp [enclosed]
  rw [shape]
  have noLiteral : TokenKind.leftParen ∉ literalKinds := by decide
  refine reads_operand rfl noLiteral ((Reads.nextKind _).bind ?_)
  rw [secondKind_cons, if_neg (starts.startsQuery_ne _)]
  refine (Reads.kindsAhead _).bind ?_
  -- even where the parentheses might open a query, an expression is tried first
  split
  · exact .firstOf_left (.apply (reads_parenthesized rfl rfl h))
  · exact reads_parenthesized rfl rfl (h.of_le (Nat.le_succ allowance))

/-- Words in parentheses restore what the words restore, wherever they stand. -/
theorem enclosed (h : Restores words fits levels follow) (loosest : levels 0)
    (ends : ∀ behind, endsExpression (firstKind behind) = true → follow behind)
    (fit : ∀ tree, fits tree → fits' (.paren tree)) :
    Restores (enclosed words) fits' Anywhere Anywhere := by
  obtain ⟨tree, same, depth, reads⟩ := h.expression loosest ends
  refine .of_operand (spelled_enclosed h.spelled) (.enclosed words) (.paren tree) (fit tree same)
    (depth + 2) fun allowance enough behind _ => ?_
  obtain ⟨less, rfl⟩ : ∃ less, allowance = less + 2 := ⟨allowance - 2, by omega⟩
  exact reads_enclosed h.starts (reads less (by omega) (TokenKind.rightParen.word :: behind) rfl)

end Restores

/-- The printed expression is read back as an expression that is like it: at the start of a run of
operators that its outermost operator may stand in, in front of what does not go on with it.  A
prefix operator may stand in any run. -/
def Expr.Restored (alike : Expr → Expr → Prop) (expr : Expr) : Prop :=
  Restores (expr.words true) (alike · expr)
    (fun level => level ≤ expr.level .adql ∨ expr.isUnary = true) expr.EndsAt

end Adql
