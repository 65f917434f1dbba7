import Adql.Proofs.Expressions.Restored
import Adql.Proofs.RoundTrip.Parses
import Adql.Proofs.RoundTrip.Printing

/-!
# The grouping of printed operators

Trees of binary and prefix operators over columns and integers.  A prefix operator absorbs the
operators behind it, so it matters where the printed text leaves one open: a tree is closed
(`Expr.Closed`) if no run of operators that a left operand leaves open goes on with the operator behind
the operand.  A closed tree is read back with its grouping (`printed_grouping`).  The printer does not
see to it that trees are closed: it decides on parentheses by the levels of neighbours alone, and
there is a tree that loses its grouping (`negatedSum_loses_grouping`).
-/

namespace Adql

open Adql.Parser Adql.Grammar

/-- The printed text of an expression that is restored is parsed to the end as the expression, up to
parentheses. -/
theorem Expr.Restored.parses {expr : Expr} (h : expr.Restored EqStripped) : ∃ tokens tree,
    tokenize expr.text = .ok tokens ∧ ParsesAs .adql tokens tree ∧ tree.stripped = expr.stripped := by
  obtain ⟨tree, same, depth, reads⟩ := h.expression (.inl (Nat.zero_le _)) fun _ => .of_ends
  have read (allowance : Nat) (enough : depth ≤ allowance) :
      Reads (apply true allowance .expression) (expr.words true) tree [] := by
    have read := reads allowance enough [] rfl
    rwa [List.append_nil] at read
  obtain ⟨tokens, cut, applies⟩ := AppliesTo.of_prints expr.prints h.spelled read
  exact ⟨tokens, tree, cut, applies.parsesAs, same⟩

/-! ### Trees of operators -/

/-- Trees of operators over unqualified columns with regular names and integers that are not
negative. -/
inductive Expr.OfOperators : Expr → Prop
  | column {name : String} : IsName name → OfOperators (.column ⟨[], .regular name⟩)
  | integer {value : Int64} : 0 ≤ value.toInt → OfOperators (.literal (.integer value))
  | binary {left right : Expr} (op : BinaryOp) : OfOperators left → OfOperators right →
      OfOperators (.binary left op right)
  | unary {operand : Expr} (op : UnaryOp) : OfOperators operand → OfOperators (.unary op operand)

/-- In a tree of operators, no run of operators that a bare left operand leaves open goes on with the
operator behind the operand. -/
def Expr.Closed : Expr → Prop
  | .binary left op right => left.Closed ∧ right.Closed ∧
      (left.looserThan (PrecedenceTable.adql.binaryLevel op) = false →
        PrecedenceTable.adql.binaryLevel op < left.openLevel)
  | .unary _ operand => operand.Closed
  | _ => True

/-- A tree of operators has no parentheses. -/
theorem Expr.OfOperators.stripped {expr : Expr} (h : expr.OfOperators) : expr.stripped = expr := by
  induction h with
  | column => rfl
  | integer => rfl
  | binary op _ _ ihLeft ihRight => rw [stripped_binary, ihLeft, ihRight]
  | unary op _ ih => rw [stripped_unary, ih]

/-- A closed tree of operators is restored. -/
theorem Expr.OfOperators.restored {expr : Expr} (h : expr.OfOperators) (closed : expr.Closed) :
    expr.Restored EqStripped := by
  induction h with
  | column isName => exact .column fun part mem => List.mem_singleton.mp mem ▸ isName
  | integer nonneg =>
    obtain ⟨spelled, again⟩ := Literal.integer_sound nonneg
    exact .literal spelled again
  | binary op _ _ ihLeft ihRight =>
    obtain ⟨closedLeft, closedRight, ends⟩ := closed
    exact (ihLeft closedLeft).binary (ihRight closedRight) ends
  | unary op _ ih => exact (ih closed).unary

/-- The printed text of a closed tree of operators is parsed to the end, and without its parentheses
the parsed tree is the tree that was printed. -/
theorem printed_grouping (expr : Expr) (operators : expr.OfOperators) (closed : expr.Closed) :
    ∃ tokens tree, tokenize expr.text = .ok tokens ∧ ParsesAs .adql tokens tree ∧
      tree.stripped = expr := by
  obtain ⟨tokens, tree, cut, parses, same⟩ := (operators.restored closed).parses
  exact ⟨tokens, tree, cut, parses, same.trans operators.stripped⟩

/-- The expression `a - -(b OR NOT c)`. -/
def nestedPrefixes : Expr :=
  .binary (.simpleColumn "a") .sub
    (.unary .neg (.binary (.simpleColumn "b") .or (.unary .not (.simpleColumn "c"))))

/-- The names `a`, `b` and `c` are columns. -/
theorem ofOperators_abc : ∀ name ∈ ["a", "b", "c"], (Expr.simpleColumn name).OfOperators := by
  have isName : ∀ name ∈ ["a", "b", "c"], IsName name := by decide +kernel
  exact fun name h => .column (isName name h)

/-- A loose operand below two signs is put in parentheses, and keeps its place. -/
theorem printed_grouping_nested : nestedPrefixes.OfOperators ∧ nestedPrefixes.Closed ∧
    ∃ tokens tree, tokenize nestedPrefixes.text = .ok tokens ∧ ParsesAs .adql tokens tree ∧
      tree.stripped = nestedPrefixes := by
  have columns := ofOperators_abc
  have operators : nestedPrefixes.OfOperators :=
    .binary .sub (columns "a" (by simp)) (.unary .neg (.binary .or (columns "b" (by simp))
      (.unary .not (columns "c" (by simp)))))
  have closed : nestedPrefixes.Closed :=
    ⟨trivial, ⟨trivial, trivial, fun _ => by decide⟩, fun _ => by decide⟩
  exact ⟨operators, closed, printed_grouping nestedPrefixes operators closed⟩

/-- The sum `a + NOT b`, compared with `c`. -/
def negatedSum : Expr :=
  .binary (.binary (.simpleColumn "a") .add (.unary .not (.simpleColumn "b"))) .eq
    (.simpleColumn "c")

/-- The column `a`, plus the negation of `b = c`. -/
def sumOfNegated : Expr :=
  .binary (.simpleColumn "a") .add
    (.unary .not (.binary (.simpleColumn "b") .eq (.simpleColumn "c")))

/-- The comparison of `a + NOT b` with `c` is printed without parentheses, so it is read as the sum of
`a` and `NOT b = c`: the grouping is lost. -/
theorem negatedSum_loses_grouping : negatedSum.OfOperators ∧
    ¬∃ tokens tree, tokenize negatedSum.text = .ok tokens ∧ ParsesAs .adql tokens tree ∧
      tree.stripped = negatedSum := by
  have columns := ofOperators_abc
  have a := columns "a" (by simp)
  have b := columns "b" (by simp)
  have c := columns "c" (by simp)
  refine ⟨.binary .eq (.binary .add a (.unary .not b)) c, fun ⟨tokens, tree, cut, parses, same⟩ => ?_⟩
  have other : sumOfNegated.OfOperators := .binary .add a (.unary .not (.binary .eq b c))
  have closed : sumOfNegated.Closed :=
    ⟨trivial, ⟨trivial, trivial, fun _ => by decide⟩, fun _ => by decide⟩
  obtain ⟨tokens', tree', cut', parses', same'⟩ := (other.restored closed).parses
  have text : negatedSum.text = sumOfNegated.text := by decide +kernel
  rw [text, cut'] at cut
  cases cut
  rw [parses.unique parses', same', other.stripped] at same
  cases same

end Adql
