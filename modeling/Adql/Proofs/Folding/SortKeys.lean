import Adql.Grammar
import Adql.Proofs.Folding.Arithmetic
import Adql.Proofs.Folding.Observed

/-!
# Folding and sort keys

An integer literal as a sort key is an ordinal: it stands for the number of a column.  Any other
sort key is an expression to sort by.  Folding keeps ordinals, but it does not tell sort keys from
other expressions: a key that is an expression of integers without columns becomes the ordinal of
its value (`Query.sortKeys_folded`).  So `ORDER BY 1 + 1`, which sorts by a constant, is folded to
`ORDER BY 2`, which sorts by the second column.
-/

namespace Adql

open Folding

/-! ### The sort keys of a query -/

/-- Collects the sort keys of queries and specifications. -/
def Observer.sortKeys : Observer (StateM (Array SortKey)) := fun node walk =>
  match node with
  | .query query => do
    modify fun keys : Array SortKey => keys ++ query.keys
    walk
  | .querySpec spec => do
    modify fun keys : Array SortKey => keys ++ spec.keys
    walk
  | _ => walk

/-- The sort keys everywhere in a query. -/
def Query.sortKeys (query : Query) : List SortKey :=
  ((Observer.sortKeys.seeQuery query).run #[]).2.toList

/-- The number of the column that a sort key stands for, if it is an ordinal. -/
def SortKey.ordinal? (key : SortKey) : Option Int64 :=
  match key.expr with
  | .literal (.integer number) => some number
  | _ => none

/-- The sort key with its expression folded. -/
def SortKey.folded (key : SortKey) : SortKey :=
  ⟨key.expr.folded.1, key.direction⟩

/-- Folding a sort key is folding its expression. -/
theorem SortKey.reduced_eq_folded (key : SortKey) : key.reduced = key.folded := by
  obtain ⟨expr, direction⟩ := key
  rw [folded, Expr.folded_fst]
  rfl

/-- Folding sort keys is folding each of them. -/
theorem SortKey.reducedList_eq_folded (keys : List SortKey) :
    reducedList keys = keys.map folded := by
  rw [reducedList_eq_map, funext reduced_eq_folded]

/-- An action collects the folded keys where another one collects the keys. -/
def Folding.foldingKeys : Simulation (StateM (Array SortKey)) (StateM (Array SortKey)) where
  relates first second := ∀ keys, first.run (keys.map SortKey.folded) =
    ((second.run keys).1, (second.run keys).2.map SortKey.folded)
  of_pure _ _ := rfl
  of_bind related alike keys := by
    rw [StateT.run_bind, related]
    exact alike _ _

/-- The collector of sort keys takes no notice of operators. -/
theorem Observer.sortKeys_ignoresOperators : Observer.sortKeys.IgnoresOperators where
  expr _ _ := rfl
  literal _ := rfl
  binary _ _ _ _ := rfl
  unary _ _ _ := rfl

/-- Behind folded keys, the folded keys of a query or specification are collected where the keys
themselves are behind keys. -/
theorem Folding.foldingKeys_append (own : List SortKey)
    {walk walk' : StateM (Array SortKey) Unit} (alike : foldingKeys.relates walk walk') :
    foldingKeys.relates
      (do modify fun keys : Array SortKey => keys ++ SortKey.reducedList own; walk)
      (do modify fun keys : Array SortKey => keys ++ own; walk') := by
  refine foldingKeys.of_bind (fun keys => ?_) fun _ => alike
  refine Prod.ext rfl ?_
  change keys.map SortKey.folded ++ SortKey.reducedList own = (keys ++ own).map SortKey.folded
  rw [SortKey.reducedList_eq_folded]
  refine Array.ext' ?_
  simp

/-- The collector of sort keys collects the folded keys of a folded query. -/
theorem Observer.sortKeys_seesFolded :
    Observer.SeesFolded foldingKeys Observer.sortKeys Observer.sortKeys := by
  intro node walk walk' alike
  cases node with
  | query query =>
    obtain ⟨_, _, own, _⟩ := query
    exact foldingKeys_append own alike
  | querySpec spec =>
    obtain ⟨_, _, _, _, _, _, _, own, _⟩ := spec
    exact foldingKeys_append own alike
  | _ => exact alike

/-- The sort keys of a folded query are the folded sort keys. -/
theorem Query.sortKeys_reduced (query : Query) :
    query.reduced.sortKeys = query.sortKeys.map SortKey.folded := by
  have collected := Observer.seeQuery_reduced Observer.sortKeys_ignoresOperators
    Observer.sortKeys_seesFolded query #[]
  rw [Array.map_empty] at collected
  rw [sortKeys, sortKeys, ← Array.toList_map, collected]

/-! ### Expressions that are folded to integers -/

namespace Expr

/-- An integer that two literals are worth is worth two integers, and the operator computes with
integers. -/
theorem exists_integers_of_binaryValue? {op : BinaryOp} {left right : Literal} {number : Int64}
    (worth : binaryValue? op left right = some (.integer number)) :
    (op.family = .arithmetic ∨ op.family = .bitwise) ∧
      (∃ value, left = .integer value) ∧ ∃ value, right = .integer value := by
  cases left <;> cases right <;>
    simp only [binaryValue?, Option.map_eq_some_iff, Option.ite_none_right_eq_some,
      Option.some.injEq, Literal.integer.injEq, reduceCtorEq, and_false, exists_false] at worth
  case integer.integer a b =>
    obtain ⟨result, worth, -⟩ := worth
    refine ⟨?_, ⟨a, rfl⟩, ⟨b, rfl⟩⟩
    cases op <;> first | exact .inl rfl | exact .inr rfl | cases worth

/-- What is folded to an integer is an expression of integers. -/
theorem isArithmetic_of_literal? : ∀ {expr : Expr} {number : Int64},
    expr.reduced.literal? = some (.integer number) → expr.IsArithmetic
  | .literal value, number, worth => by
    rw [reduced_literal] at worth
    cases worth
    exact .literal number
  | .binary left op right, number, worth => by
    rw [reduced_binary, literal?_simplified_binary, Option.bind_eq_some_iff] at worth
    obtain ⟨a, isLeft, worth⟩ := worth
    obtain ⟨b, isRight, worth⟩ := Option.bind_eq_some_iff.mp worth
    obtain ⟨family, ⟨a, rfl⟩, b, rfl⟩ := exists_integers_of_binaryValue? worth
    exact .binary family (isArithmetic_of_literal? isLeft) (isArithmetic_of_literal? isRight)
  | .unary op operand, number, worth => by
    rw [reduced_unary, literal?_simplified_unary, Option.bind_eq_some_iff] at worth
    obtain ⟨value, isOperand, worth⟩ := worth
    cases op <;> cases value <;>
      simp only [unaryValue?, Option.map_eq_some_iff, Option.some.injEq, reduceCtorEq] at worth
    exact .neg (isArithmetic_of_literal? isOperand)
  | .paren inner, number, worth => by
    rw [reduced_paren, literal?_simplified_paren] at worth
    exact .paren (isArithmetic_of_literal? worth)

/-- The expressions that are folded to an integer are the expressions of integers without columns
that have this value. -/
theorem literal?_reduced_eq_integer {expr : Expr} {number : Int64} :
    expr.reduced.literal? = some (.integer number) ↔
      expr.IsArithmetic ∧ expr.columns = [] ∧
        ∀ assignment, expr.evaluate? assignment = some number := by
  constructor
  · intro worth
    have arithmetic := isArithmetic_of_literal? worth
    rw [literal?_eq_some] at worth
    refine ⟨arithmetic, ?_, fun assignment => ?_⟩
    · rw [← columns_reduced, worth]
      rfl
    · rw [← arithmetic.evaluate?_reduced, worth]
      rfl
  · rintro ⟨arithmetic, closed, value⟩
    rw [arithmetic.literal?_reduced (fun _ => 0) closed, value]
    rfl

end Expr

/-- An ordinal is a key whose expression is an integer literal. -/
theorem SortKey.ordinal?_eq_some {key : SortKey} {number : Int64} :
    key.ordinal? = some number ↔ key.expr.literal? = some (.integer number) := by
  obtain ⟨expr, direction⟩ := key
  cases expr with
  | literal value => cases value <;> simp [ordinal?, Expr.literal?]
  | _ => simp [ordinal?, Expr.literal?]

/-- Folding folds every sort key of a query where it stands.  It keeps the ordinals, and it makes
ordinals of those other keys that are expressions of integers without columns and have a value. -/
theorem Query.sortKeys_folded (query : Query) :
    query.folded.1.sortKeys = query.sortKeys.map SortKey.folded ∧
    ∀ (key : SortKey) (number : Int64),
      key.folded.ordinal? = some number ↔
        key.ordinal? = some number ∨
          key.ordinal? = none ∧ key.expr.IsArithmetic ∧ key.expr.columns = [] ∧
            ∀ assignment, key.expr.evaluate? assignment = some number := by
  refine ⟨?_, fun key number => ?_⟩
  · rw [folded_fst, sortKeys_reduced]
  · rw [SortKey.ordinal?_eq_some, SortKey.folded, Expr.folded_fst, Expr.literal?_reduced_eq_integer]
    cases before : key.ordinal? with
    | none => simp
    | some ordinal =>
      rw [SortKey.ordinal?_eq_some, Expr.literal?_eq_some] at before
      rw [before]
      constructor
      · rintro ⟨_, _, value⟩
        exact .inl (value fun _ => 0)
      · rintro (same | ⟨⟨⟩, _⟩)
        cases same
        exact ⟨.literal _, rfl, fun _ => rfl⟩

/-- A query that sorts by a sum of integers. -/
def constantKeySource : String :=
  "SELECT a FROM t ORDER BY 1 + 1"

/-- A sum of integers is no ordinal, but it is folded to one. -/
theorem constantKey_becomes_ordinal : ∃ tree, parseText constantKeySource {} = ⟨some tree, []⟩ ∧
    tree.sortKeys.map SortKey.ordinal? = [none] ∧
      tree.folded.1.sortKeys.map SortKey.ordinal? = [some 2] := by
  have errors : (parseText constantKeySource {}).errors = [] := by decide +kernel
  have keys : (parseText constantKeySource {}).tree.map (fun tree =>
      (tree.sortKeys.map SortKey.ordinal?, tree.folded.1.sortKeys.map SortKey.ordinal?)) =
        some ([none], [some 2]) := by
    decide +kernel
  obtain ⟨tree, found, keys⟩ := Option.map_eq_some_iff.mp keys
  obtain ⟨before, after⟩ := Prod.mk.inj keys
  exact ⟨tree, by rw [← found, ← errors], before, after⟩

end Adql
