import Adql.Proofs.Folding.Normal
import Adql.Proofs.Leaves.Printed

/-!
# The leaves of folded trees

Folding puts new numbers and strings into a tree.  What holds of the leaves of a tree holds of the
leaves of the folded tree if it passes from the leaves of operations to those of their values
(`Folding.Respects`), by induction over the tree (`Query.leaves_reduced`).

A real number that folding puts into a tree is finite.  So all leaves of a folded tree can be written,
but for one number: the least integer, whose magnitude is no literal (`Leaf.Ordinary`).
-/

namespace Adql

open Folding

/-! ### Ordinary leaves -/

/-- The least integer.  Its magnitude is no literal. -/
def Leaf.least : Leaf :=
  .integer Int64.minValue.toInt

/-- The leaf can be written, or it is the least integer. -/
def Leaf.Ordinary (leaf : Leaf) : Prop :=
  leaf.Writable ∨ leaf = .least

/-- An integer of sixty-four bits is ordinary. -/
theorem Leaf.ordinary_integer (value : Int64) : (integer value.toInt).Ordinary := by
  have lower : Int64.minValue.toInt ≤ value.toInt := Int64.minValue_le_toInt value
  have upper := toInt_le_maxInteger value
  by_cases least : value.toInt = Int64.minValue.toInt
  · exact .inr (congrArg integer least)
  · refine .inl (show value.toInt.natAbs ≤ maxInteger from ?_)
    rw [Int64.toInt_minValue] at lower least
    simp only [maxInteger] at upper ⊢
    omega

/-- The least integer cannot be written. -/
theorem Leaf.not_writable_least : ¬Leaf.least.Writable := by
  decide

/-! ### What passes from operations to their values -/

/-- What holds of the leaves of an operation holds of the leaves of its value. -/
def Folding.Respects (P : Leaf → Prop) : Prop :=
  ∀ {expr value}, value? expr = some value → (∀ leaf ∈ expr.leaves, P leaf) →
    ∀ leaf ∈ value.leaves, P leaf

/-- The value of an operation has ordinary leaves, if the operands have. -/
theorem Folding.respects_ordinary : Respects Leaf.Ordinary := by
  intro expr value worth ordinary
  have real {op : BinaryOp} {a b : Double}
      (found : (realValue? op a b).map Literal.real = some value) :
      ∀ leaf ∈ value.leaves, leaf.Ordinary := by
    obtain ⟨result, value?, rfl⟩ := Option.map_eq_some_iff.mp found
    exact List.forall_mem_singleton.mpr (.inl (Option.filter_eq_some_iff.mp value?).2)
  unfold value? at worth
  split at worth
  · next left op right =>
    unfold binaryValue? at worth
    split at worth
    · obtain ⟨result, -, rfl⟩ := Option.map_eq_some_iff.mp worth
      exact List.forall_mem_singleton.mpr (Leaf.ordinary_integer result)
    · exact real worth
    · exact real worth
    · exact real worth
    · split at worth
      · cases worth
        exact List.forall_mem_singleton.mpr (.inl trivial)
      · cases worth
    · cases worth
  · next op operand =>
    unfold unaryValue? at worth
    split at worth
    · obtain ⟨result, -, rfl⟩ := Option.map_eq_some_iff.mp worth
      exact List.forall_mem_singleton.mpr (Leaf.ordinary_integer result)
    · next value =>
      cases worth
      rcases List.forall_mem_singleton.mp ordinary with finite | least
      · refine List.forall_mem_singleton.mpr (.inl (show (-value).isFinite = true from ?_))
        rw [Double.isFinite, Double.exponent_neg]
        exact finite
      · cases least
    · cases worth
      exact List.forall_mem_nil _
    · cases worth
  · cases worth
    exact ordinary
  · cases worth

/-! ### Folded trees -/

/-- What holds of all leaves in the first list holds of all in the second. -/
def Leaf.Passes (P : Leaf → Prop) (leaves leaves' : List Leaf) : Prop :=
  (∀ leaf ∈ leaves, P leaf) → ∀ leaf ∈ leaves', P leaf

section

set_option linter.unusedSectionVars false

variable {P : Leaf → Prop}

/-- Lists one behind the other pass on what each of them does. -/
theorem Leaf.Passes.append {first second first' second' : List Leaf} (h : Passes P first first')
    (h' : Passes P second second') : Passes P (first ++ second) (first' ++ second') :=
  fun all => List.forall_mem_append.mpr
    ⟨h (List.forall_mem_append.mp all).1, h' (List.forall_mem_append.mp all).2⟩

/-- The same leaves in front change nothing. -/
theorem Leaf.Passes.behind {leaves leaves' : List Leaf} (front : List Leaf)
    (h : Passes P leaves leaves') : Passes P (front ++ leaves) (front ++ leaves') :=
  append id h

/-- The same leaves behind change nothing. -/
theorem Leaf.Passes.before {leaves leaves' : List Leaf} (h : Passes P leaves leaves')
    (rest : List Leaf) : Passes P (leaves ++ rest) (leaves' ++ rest) :=
  h.append id

/-- What is passed on to the leaves of folded parts is passed on to the leaves of the folded
expression. -/
theorem Leaf.Passes.simplified {expr : Expr} (h : Passes P expr.leaves expr.rebuilt.leaves)
    (respects : Folding.Respects P) : Passes P expr.leaves expr.reduced.leaves := by
  intro all
  rw [Expr.reduced_eq]
  cases worth : value? expr.rebuilt with
  | none => rw [Expr.simplified_of_none worth]; exact h all
  | some value => rw [Expr.simplified_of_some worth]; exact respects worth (h all)

variable (respects : Folding.Respects P)

include respects

mutual

/-- Folding the parts of an expression passes on what holds of its leaves. -/
theorem Expr.leaves_rebuilt : ∀ expr : Expr, Leaf.Passes P expr.leaves expr.rebuilt.leaves
  | .literal _ => id
  | .column _ => id
  | .wildcard _ => id
  | .binary left _ right => .append (left.leaves_rebuilt.simplified respects)
      (right.leaves_rebuilt.simplified respects)
  | .unary _ operand => operand.leaves_rebuilt.simplified respects
  | .call name arguments _ => .behind name.calledLeaves (Expr.leaves_reducedList arguments)
  | .geometry function arguments =>
      .behind [.geometry function.spelling] (Expr.leaves_reducedList arguments)
  | .isNull operand _ => operand.leaves_rebuilt.simplified respects
  | .between operand low high _ => .append (operand.leaves_rebuilt.simplified respects)
      (.append (low.leaves_rebuilt.simplified respects)
        (high.leaves_rebuilt.simplified respects))
  | .inList operand items _ => .append (operand.leaves_rebuilt.simplified respects)
      (Expr.leaves_reducedList items)
  | .inQuery operand query _ => .append (operand.leaves_rebuilt.simplified respects)
      query.leaves_reduced
  | .like operand pattern escape _ _ => .append (operand.leaves_rebuilt.simplified respects)
      (.append (pattern.leaves_rebuilt.simplified respects)
        (Expr.leaves_reducedOption escape))
  | .exists query => query.leaves_reduced
  | .subquery query => query.leaves_reduced
  | .case subject branches otherwise => .append (Expr.leaves_reducedOption subject)
      (.append (Branch.leaves_reducedList branches) (Expr.leaves_reducedOption otherwise))
  | .cast operand target => .before (operand.leaves_rebuilt.simplified respects) target.leaves
  | .paren inner => inner.leaves_rebuilt.simplified respects

/-- Folding expressions passes on what holds of their leaves. -/
theorem Expr.leaves_reducedList : ∀ exprs : List Expr,
    Leaf.Passes P (Expr.leavesList exprs) (Expr.leavesList (Expr.reducedList exprs))
  | [] => id
  | expr :: rest => .append (expr.leaves_rebuilt.simplified respects)
      (Expr.leaves_reducedList rest)

/-- Folding an expression that may be missing passes on what holds of its leaves. -/
theorem Expr.leaves_reducedOption : ∀ expr? : Option Expr,
    Leaf.Passes P (Expr.leavesOption expr?) (Expr.leavesOption (Expr.reducedOption expr?))
  | none => id
  | some expr => expr.leaves_rebuilt.simplified respects

/-- Folding the parts of a branch passes on what holds of its leaves. -/
theorem Branch.leaves_reduced : ∀ branch : Branch, Leaf.Passes P branch.leaves branch.reduced.leaves
  | ⟨condition, result⟩ => .append (condition.leaves_rebuilt.simplified respects)
      (result.leaves_rebuilt.simplified respects)

/-- Folding branches passes on what holds of their leaves. -/
theorem Branch.leaves_reducedList : ∀ branches : List Branch,
    Leaf.Passes P (Branch.leavesList branches) (Branch.leavesList (Branch.reducedList branches))
  | [] => id
  | branch :: rest => .append branch.leaves_reduced (Branch.leaves_reducedList rest)

/-- Folding a sort key passes on what holds of its leaves. -/
theorem SortKey.leaves_reduced : ∀ key : SortKey, Leaf.Passes P key.leaves key.reduced.leaves
  | ⟨expr, _⟩ => expr.leaves_rebuilt.simplified respects

/-- Folding sort keys passes on what holds of their leaves. -/
theorem SortKey.leaves_reducedList : ∀ keys : List SortKey,
    Leaf.Passes P (SortKey.leavesList keys) (SortKey.leavesList (SortKey.reducedList keys))
  | [] => id
  | key :: rest => .append key.leaves_reduced (SortKey.leaves_reducedList rest)

/-- Folding a select item passes on what holds of its leaves. -/
theorem SelectItem.leaves_reduced :
    ∀ item : SelectItem, Leaf.Passes P item.leaves item.reduced.leaves
  | ⟨expr, alias?⟩ => .before (expr.leaves_rebuilt.simplified respects)
      (Identifier.leavesOption alias?)

/-- Folding select items passes on what holds of their leaves. -/
theorem SelectItem.leaves_reducedList : ∀ items : List SelectItem,
    Leaf.Passes P (SelectItem.leavesList items) (SelectItem.leavesList (SelectItem.reducedList items))
  | [] => id
  | item :: rest => .append item.leaves_reduced (SelectItem.leaves_reducedList rest)

/-- Folding what matches the rows of a join passes on what holds of its leaves. -/
theorem JoinConstraint.leaves_reduced :
    ∀ constraint : JoinConstraint, Leaf.Passes P constraint.leaves constraint.reduced.leaves
  | .on condition => condition.leaves_rebuilt.simplified respects
  | .using _ => id
  | .none => id

/-- Folding a table passes on what holds of its leaves. -/
theorem TableRef.leaves_reduced : ∀ table : TableRef, Leaf.Passes P table.leaves table.reduced.leaves
  | .table _ _ => id
  | .subquery query name => .before query.leaves_reduced [.name name]
  | .join left _ _ right constraint =>
      .append left.leaves_reduced (.append right.leaves_reduced constraint.leaves_reduced)
  | .nested inner => inner.leaves_reduced

/-- Folding tables passes on what holds of their leaves. -/
theorem TableRef.leaves_reducedList : ∀ tables : List TableRef,
    Leaf.Passes P (TableRef.leavesList tables) (TableRef.leavesList (TableRef.reducedList tables))
  | [] => id
  | table :: rest => .append table.leaves_reduced (TableRef.leaves_reducedList rest)

/-- Folding a specification passes on what holds of its leaves. -/
theorem QuerySpec.leaves_reduced : ∀ spec : QuerySpec, Leaf.Passes P spec.leaves spec.reduced.leaves
  | ⟨_, top, items, tables, condition, groups, having, keys, offset⟩ =>
      .behind (Leaf.count (top.map UInt64.toNat)) <| .append (SelectItem.leaves_reducedList items) <|
        .append (TableRef.leaves_reducedList tables) <|
          .append (Expr.leaves_reducedOption condition) <| .append (Expr.leaves_reducedList groups) <|
            .append (Expr.leaves_reducedOption having) <| .before (SortKey.leaves_reducedList keys)
              (Leaf.count (offset.map UInt64.toNat))

/-- Folding a body passes on what holds of its leaves. -/
theorem QueryBody.leaves_reduced : ∀ body : QueryBody, Leaf.Passes P body.leaves body.reduced.leaves
  | .spec spec => spec.leaves_reduced
  | .setOperation _ _ left right => .append left.leaves_reduced right.leaves_reduced
  | .nested query => query.leaves_reduced

/-- Folding a named query passes on what holds of its leaves. -/
theorem CommonTable.leaves_reduced :
    ∀ table : CommonTable, Leaf.Passes P table.leaves table.reduced.leaves
  | ⟨name, columns, query⟩ => .behind [.name name] (.behind (columns.map .name) query.leaves_reduced)

/-- Folding named queries passes on what holds of their leaves. -/
theorem CommonTable.leaves_reducedList : ∀ tables : List CommonTable, Leaf.Passes P
    (CommonTable.leavesList tables) (CommonTable.leavesList (CommonTable.reducedList tables))
  | [] => id
  | table :: rest => .append table.leaves_reduced (CommonTable.leaves_reducedList rest)

/-- Folding a query passes on what holds of its leaves. -/
theorem Query.leaves_reduced : ∀ query : Query, Leaf.Passes P query.leaves query.reduced.leaves
  | ⟨commonTables, body, keys, offset⟩ => .append (CommonTable.leaves_reducedList commonTables)
      (.append body.leaves_reduced (.before (SortKey.leaves_reducedList keys)
        (Leaf.count (offset.map UInt64.toNat))))

end

end

end Adql
