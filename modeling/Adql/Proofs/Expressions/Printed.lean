import Adql.Proofs.Expressions.Calls
import Adql.Proofs.Expressions.Grouping

/-!
# Printed expressions without prefix `NOT`

Without prefix `NOT` and without queries, every expression that can be written is read back from its
printed text, up to parentheses (`printed_expression`).  A run of operators that such an expression
leaves open at its end binds tighter than the expression does (`Expr.Plain.lt_openLevel`), so no
operator behind a bare operand is taken for a part of it.
-/

namespace Adql

open Adql.Parser Adql.Grammar Adql.Decimal

/-- Expressions without prefix `NOT` and without queries whose parts can be written.  A real number is
written so that it is read back, and without a minus sign, which negative zero has as well. -/
inductive Expr.Plain : Expr → Prop
  | column {name : QualifiedName} : name.Valid → Plain (.column name)
  | integer {value : Int64} : 0 ≤ value.toInt → Plain (.literal (.integer value))
  | real {value : Double} : value.isNegative = false → value.isFinite = true →
      readReal? (Layout.query.text value) = some value → Plain (.literal (.real value))
  | string (value : String) : Plain (.literal (.string value))
  | boolean (value : Bool) : Plain (.literal (.boolean value))
  | null : Plain (.literal .null)
  | binary {left right : Expr} (op : BinaryOp) : Plain left → Plain right →
      Plain (.binary left op right)
  | unary {op : UnaryOp} {operand : Expr} : op ≠ .not → Plain operand → Plain (.unary op operand)
  | paren {inner : Expr} : Plain inner → Plain (.paren inner)
  | isNull {operand : Expr} (negated : Bool) : Plain operand → Plain (.isNull operand negated)
  | between {operand low high : Expr} (negated : Bool) : Plain operand → Plain low → Plain high →
      Plain (.between operand low high negated)
  | inList {operand : Expr} {items : List Expr} (negated : Bool) : Plain operand → items ≠ [] →
      (∀ item ∈ items, Plain item) → Plain (.inList operand items negated)
  | like {operand pattern : Expr} {escape : Option Expr} (negated caseInsensitive : Bool) :
      Plain operand → Plain pattern → (∀ expr ∈ escape, Plain expr) →
      Plain (.like operand pattern escape negated caseInsensitive)
  | case {subject otherwise : Option Expr} {branches : List Branch} :
      (∀ expr ∈ subject, Plain expr) → branches ≠ [] →
      (∀ expr ∈ Branch.exprs branches, Plain expr) → (∀ expr ∈ otherwise, Plain expr) →
      Plain (.case subject branches otherwise)
  | cast {operand : Expr} (target : DataType) : Plain operand → Plain (.cast operand target)
  | call {name : Identifier} {arguments : List Expr} : name.Valid →
      (name.quoted = false → Geometry.ofName? name.value = none) →
      (∀ argument ∈ arguments, Plain argument) → Plain (.call name arguments false)
  | aggregate {keyword : Keyword} {argument : Expr} (distinct : Bool) :
      keyword.isAggregate = true → Plain argument →
      Plain (.call (.regular keyword.spelling) [argument] distinct)
  | countAll : Plain (.call (.regular Keyword.COUNT.spelling) [.wildcard []] false)
  | geometry {function : Geometry} {arguments : List Expr} : function.Admits arguments.length →
      (∀ argument ∈ arguments, Plain argument) → Plain (.geometry function arguments)

namespace Expr.Plain

variable {expr operand : Expr}

/-- What stands bare binds tight enough for its place, or has a sign and binds tighter than all binary
operators. -/
theorem le_level (plain : operand.Plain) (level : Nat)
    (bare : level ≤ operand.level .adql ∨ operand.isUnary = true) :
    min level 11 ≤ operand.level .adql := by
  rcases bare with tight | prefixed
  · omega
  · cases plain with
    | @unary op _ other _ =>
      have sign : PrecedenceTable.adql.prefixLevel op = 11 := by
        cases op with
        | not => exact absurd rfl other
        | neg | plus | bitNot => rfl
      rw [Expr.level, sign]
      exact Nat.min_le_right level 11
    | _ => cases prefixed

/-- A run of operators that the expression leaves open binds tighter than the expression, or tighter
than all binary operators. -/
theorem lt_openLevel (plain : expr.Plain) : min (expr.level .adql) 10 < expr.openLevel := by
  -- what the last operand leaves open is tight enough for the run in which it stands
  have last {operand : Expr} (plain : operand.Plain) (level : Nat) (needed : Bool)
      (bare : needed = false → level ≤ operand.level .adql ∨ operand.isUnary = true)
      (ih : min (operand.level .adql) 10 < operand.openLevel) :
      min level 10 < if needed then atomLevel else operand.openLevel := by
    cases needed with
    | true =>
      have : min level 10 < atomLevel := Nat.lt_of_le_of_lt (Nat.min_le_right _ _) (by decide)
      exact this
    | false =>
      have := plain.le_level level (bare rfl)
      exact show min level 10 < operand.openLevel by omega
  induction plain with
  | binary op _ plainRight _ ih =>
    have := last plainRight (PrecedenceTable.adql.rightLevel op) _ le_level_of_looserRight ih
    rw [Expr.level, openLevel]
    rw [PrecedenceTable.rightLevel_adql] at this ⊢
    omega
  | @unary op operand other plainOperand ih =>
    have := last plainOperand (PrecedenceTable.adql.prefixLevel op) _ le_level_of_looserRight ih
    have sign := (Plain.unary other plainOperand).le_level 11 (.inr rfl)
    rw [Expr.level] at sign ⊢
    rw [openLevel]
    omega
  | @between operand low high negated _ _ plainHigh _ _ ih =>
    have := last plainHigh (predicateLevel + 1) (high.looserThan (predicateLevel + 1))
      (fun bare => .inl (le_level_of_looserThan bare)) ih
    have level : predicateLevel = 4 := rfl
    rw [show (Expr.between operand low high negated).level .adql = predicateLevel from rfl, openLevel]
    omega
  | @like operand pattern escape negated caseInsensitive _ plainPattern plainEscape _ ih ihEscape =>
    have level : predicateLevel = 4 := rfl
    rw [show (Expr.like operand pattern escape negated caseInsensitive).level .adql = predicateLevel
      from rfl]
    cases escape with
    | none =>
      have := last plainPattern (predicateLevel + 1) (pattern.looserThan (predicateLevel + 1))
        (fun bare => .inl (le_level_of_looserThan bare)) ih
      rw [openLevel]
      omega
    | some escape =>
      have := last (plainEscape escape rfl) (predicateLevel + 1)
        (escape.looserThan (predicateLevel + 1)) (fun bare => .inl (le_level_of_looserThan bare))
        (ihEscape escape rfl)
      rw [openLevel]
      omega
  | _ => exact Nat.lt_of_le_of_lt (Nat.min_le_right _ _) (show 10 < atomLevel by decide)

/-- A bare operand leaves no run of operators open that goes on with an operator behind it. -/
theorem closed (plain : operand.Plain) {level : Nat} (binary : level ≤ 10)
    (bare : operand.looserThan level = false) : level < operand.openLevel := by
  have tight := le_level_of_looserThan bare
  have := plain.lt_openLevel
  omega

/-- An expression that ends in a pattern is no operand of a predicate, unless it is in parentheses. -/
theorem level_le_of_endsInPattern (plain : expr.Plain) (h : expr.endsInPattern = true) :
    expr.level .adql ≤ predicateLevel := by
  have predicates : predicateLevel = 4 := rfl
  induction plain with
  | @binary left right op _ plainRight _ ih =>
    simp only [endsInPattern, Bool.and_eq_true, Bool.not_eq_true'] at h
    have tight := plainRight.le_level _ (le_level_of_looserRight h.1)
    have := ih h.2
    rw [PrecedenceTable.rightLevel_adql] at tight
    rw [Expr.level]
    omega
  | @unary op operand other plainOperand ih =>
    simp only [endsInPattern, Bool.and_eq_true, Bool.not_eq_true'] at h
    have tight := plainOperand.le_level _ (le_level_of_looserRight h.1)
    have := ih h.2
    have sign := (Plain.unary other plainOperand).le_level 11 (.inr rfl)
    rw [Expr.level] at sign
    omega
  | between _ _ _ plainHigh _ _ ih => exact Nat.le_refl _
  | like => exact Nat.le_refl _
  | _ => cases h

/-- The word of a name that names no geometry function names none either. -/
theorem geometryFunction?_word {name : Identifier} (valid : name.Valid)
    (plain : name.quoted = false → Geometry.ofName? name.value = none) :
    name.word.token.geometryFunction? = none := by
  obtain ⟨value, quoted⟩ := name
  cases quoted with
  | true => rfl
  | false =>
    obtain ⟨_, _, _, _, _, unreserved⟩ := id valid
    simp only [Identifier.word, Bool.false_eq_true, ↓reduceIte, unreserved]
    exact plain rfl

/-- Every plain expression is restored. -/
theorem restored (plain : expr.Plain) : expr.Restored EqStripped := by
  induction plain with
  | column valid => exact .column valid
  | integer nonneg =>
    obtain ⟨spelled, again⟩ := Literal.integer_sound nonneg
    exact .literal spelled again
  | @real value positive finite exact' =>
    have again : (Literal.real value).word.token.literal? = some (.real value) := by
      simp [Literal.word, Word.token, Token.literal?, Token.real?, exact', finite]
    exact .literal ⟨value, positive, finite, rfl, exact'⟩ again
  | string value =>
    have again : (Literal.string value).word.token.literal? = some (.string value) := by
      simp [Literal.word, Word.token, Token.literal?]
    exact .literal ⟨value, rfl⟩ again
  | boolean value => cases value <;> exact .literal rfl rfl
  | null => exact .literal rfl rfl
  | binary op plainLeft _ ihLeft ihRight =>
    exact ihLeft.binary ihRight (plainLeft.closed (PrecedenceTable.binaryLevel_adql_le op))
  | unary _ _ ih => exact ih.unary
  | paren _ ih => exact ih.paren
  | isNull _ plainOperand ih => exact ih.isNull (plainOperand.closed (by decide))
  | @between operand low high negated plainOperand plainLow _ ih ihLow ihHigh =>
    have loose : PrecedenceTable.adql.binaryLevel .and < predicateLevel + 1 := by decide
    exact ih.between ihLow ihHigh (plainOperand.closed (by decide)) fun bare =>
      loose.trans (plainLow.closed (by decide) bare)
  | inList _ plainOperand nonempty _ ih ihItems =>
    exact ih.inList (plainOperand.closed (by decide)) ihItems nonempty
  | @like operand pattern escape _ _ plainOperand plainPattern _ ih ihPattern ihEscape =>
    refine ih.like ihPattern ihEscape (plainOperand.closed (by decide)) fun _ _ bare => ?_
    have tight := le_level_of_looserThan bare
    rw [Bool.eq_false_iff]
    intro inPattern
    have := plainPattern.level_le_of_endsInPattern inPattern
    omega
  | case _ nonempty _ _ ihSubject ihBranches ihOtherwise =>
    exact .case ihSubject nonempty ihBranches ihOtherwise
  | cast _ _ ih => exact ih.cast
  | call valid noGeometry _ ih => exact .call valid (geometryFunction?_word valid noGeometry) ih
  | aggregate _ aggregates _ ih => exact .aggregate aggregates ih
  | countAll => exact .countAll
  | geometry admits _ ih => exact .geometry admits ih

end Expr.Plain

/-- The printed text of an expression without prefix `NOT` and without queries is parsed to the end,
and the parsed tree is the expression, up to parentheses. -/
theorem printed_expression (expr : Expr) (plain : expr.Plain) :
    ∃ tokens tree, tokenize expr.text = .ok tokens ∧ ParsesAs .adql tokens tree ∧
      tree.stripped = expr.stripped :=
  plain.restored.parses

/-- The expression `(a + b) * - -c NOT BETWEEN (d IS NULL) AND 1.5 OR e LIKE (f LIKE 'x') ESCAPE '!'`.
The parentheses are not in the tree. -/
def nestedPredicates : Expr :=
  let signs := Expr.unary .neg (.unary .neg (.simpleColumn "c"))
  let sum := Expr.binary (.simpleColumn "a") .add (.simpleColumn "b")
  let match' := Expr.like (.simpleColumn "f") (.literal (.string "x")) none false false
  .binary
    (.between (.binary sum .mul signs) (.isNull (.simpleColumn "d") false)
      (.literal (.real ⟨0x3FF8000000000000⟩)) true) .or
    (.like (.simpleColumn "e") match' (some (.literal (.string "!"))) false false)

/-- The printer adds the parentheses that are needed, and the text is read back as the expression. -/
theorem printed_expression_nested : nestedPredicates.Plain ∧
    nestedPredicates.text =
      "(a + b) * - -c NOT BETWEEN (d IS NULL) AND 1.5 OR e LIKE (f LIKE 'x') ESCAPE '!'" ∧
    ∃ tokens tree, tokenize nestedPredicates.text = .ok tokens ∧ ParsesAs .adql tokens tree ∧
      tree.stripped = nestedPredicates.stripped := by
  have valid : ∀ name ∈ ["a", "b", "c", "d", "e", "f"], QualifiedName.Valid ⟨[], .regular name⟩ := by
    decide +kernel
  have columns (name : String) (h : name ∈ ["a", "b", "c", "d", "e", "f"]) :
      (Expr.simpleColumn name).Plain :=
    .column (valid name h)
  have signs : (Expr.unary .neg (.unary .neg (.simpleColumn "c"))).Plain :=
    .unary nofun (.unary nofun (columns "c" (by simp)))
  have sum : (Expr.binary (.simpleColumn "a") .add (.simpleColumn "b")).Plain :=
    .binary .add (columns "a" (by simp)) (columns "b" (by simp))
  have real : (Expr.literal (.real ⟨0x3FF8000000000000⟩)).Plain :=
    .real (by decide +kernel) (by decide +kernel) (by decide +kernel)
  have range := Expr.Plain.between true (.binary .mul sum signs)
    (.isNull false (columns "d" (by simp))) real
  have match' : (Expr.like (.simpleColumn "f") (.literal (.string "x")) none false false).Plain :=
    .like false false (columns "f" (by simp)) (.string "x") nofun
  have escape : ∀ expr ∈ some (Expr.literal (.string "!")), expr.Plain := by
    rintro _ ⟨⟩
    exact .string "!"
  have plain : nestedPredicates.Plain :=
    .binary .or range (.like false false (columns "e" (by simp)) match' escape)
  exact ⟨plain, by decide +kernel, printed_expression nestedPredicates plain⟩

end Adql
