import Mathlib.Logic.Basic
import Adql.Proofs.Folding.Folded

/-!
# Folded trees are in normal form

Folding a tree once is enough.  What folding leaves of an expression is either a literal, or an
expression of folded parts that is worth no literal; neither is changed by folding it again.  So the
parts of a tree that was rebuilt from folded parts are left as they are, by induction over the trees
(`Expr.rebuilt_rebuilt`, …), and nothing is left to simplify either (`reduced_of_rebuilt`).
-/

namespace Adql

open Folding

/-! ### The parts of folded trees -/

namespace Expr

/-- An expression with folded parts, before it is simplified itself. -/
def rebuilt (expr : Expr) : Expr :=
  Id.run (expr.rebuild uncounted)

/-- What folding leaves of expressions. -/
def reducedList (exprs : List Expr) : List Expr :=
  Id.run (rebuildList uncounted exprs)

/-- What folding leaves of an expression that may be missing. -/
def reducedOption (expr? : Option Expr) : Option Expr :=
  Id.run (rebuildOption uncounted expr?)

/-- Folding simplifies an expression with folded parts. -/
theorem reduced_eq (expr : Expr) : expr.reduced = expr.rebuilt.simplified := rfl

end Expr

/-- A branch with folded parts. -/
def Branch.reduced (branch : Branch) : Branch :=
  Id.run (branch.rebuild uncounted)

/-- Branches with folded parts. -/
def Branch.reducedList (branches : List Branch) : List Branch :=
  Id.run (rebuildList uncounted branches)

/-- A sort key with a folded expression. -/
def SortKey.reduced (key : SortKey) : SortKey :=
  Id.run (key.rebuild uncounted)

/-- Sort keys with folded expressions. -/
def SortKey.reducedList (keys : List SortKey) : List SortKey :=
  Id.run (rebuildList uncounted keys)

/-- A select item with a folded expression. -/
def SelectItem.reduced (item : SelectItem) : SelectItem :=
  Id.run (item.rebuild uncounted)

/-- Select items with folded expressions. -/
def SelectItem.reducedList (items : List SelectItem) : List SelectItem :=
  Id.run (rebuildList uncounted items)

/-- What matches the rows of a join, with a folded condition. -/
def JoinConstraint.reduced (constraint : JoinConstraint) : JoinConstraint :=
  Id.run (constraint.rebuild uncounted)

/-- A table with folded parts. -/
def TableRef.reduced (table : TableRef) : TableRef :=
  Id.run (table.rebuild uncounted)

/-- Tables with folded parts. -/
def TableRef.reducedList (tables : List TableRef) : List TableRef :=
  Id.run (rebuildList uncounted tables)

/-- A specification with folded parts. -/
def QuerySpec.reduced (spec : QuerySpec) : QuerySpec :=
  Id.run (spec.rebuild uncounted)

/-- A query body with folded parts. -/
def QueryBody.reduced (body : QueryBody) : QueryBody :=
  Id.run (body.rebuild uncounted)

/-- A named query with folded parts. -/
def CommonTable.reduced (table : CommonTable) : CommonTable :=
  Id.run (table.rebuild uncounted)

/-- Named queries with folded parts. -/
def CommonTable.reducedList (tables : List CommonTable) : List CommonTable :=
  Id.run (rebuildList uncounted tables)

/-! ### Folding several parts -/

/-- Each expression is folded. -/
theorem Expr.reducedList_eq_map (exprs : List Expr) : reducedList exprs = exprs.map reduced := by
  induction exprs with
  | nil => rfl
  | cons expr rest ih => exact congrArg (expr.reduced :: ·) ih

/-- Each branch is folded. -/
theorem Branch.reducedList_eq_map (branches : List Branch) :
    reducedList branches = branches.map reduced := by
  induction branches with
  | nil => rfl
  | cons branch rest ih => exact congrArg (branch.reduced :: ·) ih

/-- Each sort key is folded. -/
theorem SortKey.reducedList_eq_map (keys : List SortKey) : reducedList keys = keys.map reduced := by
  induction keys with
  | nil => rfl
  | cons key rest ih => exact congrArg (key.reduced :: ·) ih

/-- Each select item is folded. -/
theorem SelectItem.reducedList_eq_map (items : List SelectItem) :
    reducedList items = items.map reduced := by
  induction items with
  | nil => rfl
  | cons item rest ih => exact congrArg (item.reduced :: ·) ih

/-- Each table is folded. -/
theorem TableRef.reducedList_eq_map (tables : List TableRef) :
    reducedList tables = tables.map reduced := by
  induction tables with
  | nil => rfl
  | cons table rest ih => exact congrArg (table.reduced :: ·) ih

/-- Each named query is folded. -/
theorem CommonTable.reducedList_eq_map (tables : List CommonTable) :
    reducedList tables = tables.map reduced := by
  induction tables with
  | nil => rfl
  | cons table rest ih => exact congrArg (table.reduced :: ·) ih

/-! ### Folding folded trees -/

namespace Expr

/-- An expression that is worth no literal is not simplified. -/
theorem simplified_of_none {expr : Expr} (worth : value? expr = none) : expr.simplified = expr := by
  rw [simplified, worth]
  rfl

/-- An expression that is worth a literal is simplified to it. -/
theorem simplified_of_some {expr : Expr} {value : Literal} (worth : value? expr = some value) :
    expr.simplified = .literal value := by
  rw [simplified, worth]
  rfl

/-- Folding an expression again leaves it as it is, if it leaves its parts as they are. -/
theorem reduced_of_rebuilt {expr : Expr} (kept : expr.rebuilt.rebuilt = expr.rebuilt) :
    expr.reduced.reduced = expr.reduced := by
  rw [reduced_eq expr]
  cases worth : value? expr.rebuilt with
  | none => rw [simplified_of_none worth, reduced_eq, kept, simplified_of_none worth]
  | some value =>
    rw [simplified_of_some worth]
    rfl

end Expr

mutual

/-- Folding leaves the parts of an expression with folded parts as they are. -/
theorem Expr.rebuilt_rebuilt : ∀ expr : Expr, expr.rebuilt.rebuilt = expr.rebuilt
  | .literal _ => rfl
  | .column _ => rfl
  | .wildcard _ => rfl
  | .binary left op right =>
    congrArg₂ (Expr.binary · op ·) (Expr.reduced_of_rebuilt left.rebuilt_rebuilt)
      (Expr.reduced_of_rebuilt right.rebuilt_rebuilt)
  | .unary op operand => congrArg (Expr.unary op) (Expr.reduced_of_rebuilt operand.rebuilt_rebuilt)
  | .call name arguments distinct =>
    congrArg (Expr.call name · distinct) (Expr.reducedList_reducedList arguments)
  | .geometry function arguments =>
    congrArg (Expr.geometry function) (Expr.reducedList_reducedList arguments)
  | .isNull operand negated =>
    congrArg (Expr.isNull · negated) (Expr.reduced_of_rebuilt operand.rebuilt_rebuilt)
  | .between operand low high negated => by
    change Expr.between operand.reduced.reduced low.reduced.reduced high.reduced.reduced negated = _
    rw [Expr.reduced_of_rebuilt operand.rebuilt_rebuilt,
      Expr.reduced_of_rebuilt low.rebuilt_rebuilt, Expr.reduced_of_rebuilt high.rebuilt_rebuilt]
    rfl
  | .inList operand items negated =>
    congrArg₂ (Expr.inList · · negated) (Expr.reduced_of_rebuilt operand.rebuilt_rebuilt)
      (Expr.reducedList_reducedList items)
  | .inQuery operand query negated =>
    congrArg₂ (Expr.inQuery · · negated) (Expr.reduced_of_rebuilt operand.rebuilt_rebuilt)
      query.reduced_reduced
  | .like operand pattern escape negated insensitive => by
    change Expr.like operand.reduced.reduced pattern.reduced.reduced
      (Expr.reducedOption (Expr.reducedOption escape)) negated insensitive = _
    rw [Expr.reduced_of_rebuilt operand.rebuilt_rebuilt,
      Expr.reduced_of_rebuilt pattern.rebuilt_rebuilt, Expr.reducedOption_reducedOption escape]
    rfl
  | .exists query => congrArg Expr.exists query.reduced_reduced
  | .subquery query => congrArg Expr.subquery query.reduced_reduced
  | .case subject branches otherwise => by
    change Expr.case (Expr.reducedOption (Expr.reducedOption subject))
      (Branch.reducedList (Branch.reducedList branches))
      (Expr.reducedOption (Expr.reducedOption otherwise)) = _
    rw [Expr.reducedOption_reducedOption subject, Branch.reducedList_reducedList branches,
      Expr.reducedOption_reducedOption otherwise]
    rfl
  | .cast operand target =>
    congrArg (Expr.cast · target) (Expr.reduced_of_rebuilt operand.rebuilt_rebuilt)
  | .paren inner => congrArg Expr.paren (Expr.reduced_of_rebuilt inner.rebuilt_rebuilt)

/-- Folding leaves folded expressions as they are. -/
theorem Expr.reducedList_reducedList :
    ∀ exprs : List Expr, Expr.reducedList (Expr.reducedList exprs) = Expr.reducedList exprs
  | [] => rfl
  | expr :: rest =>
    congrArg₂ List.cons (Expr.reduced_of_rebuilt expr.rebuilt_rebuilt)
      (Expr.reducedList_reducedList rest)

/-- Folding leaves a folded expression as it is, if there is one. -/
theorem Expr.reducedOption_reducedOption :
    ∀ expr? : Option Expr, Expr.reducedOption (Expr.reducedOption expr?) = Expr.reducedOption expr?
  | none => rfl
  | some expr => congrArg some (Expr.reduced_of_rebuilt expr.rebuilt_rebuilt)

/-- Folding leaves a branch with folded parts as it is. -/
theorem Branch.reduced_reduced : ∀ branch : Branch, branch.reduced.reduced = branch.reduced
  | ⟨condition, result⟩ =>
    congrArg₂ Branch.mk (Expr.reduced_of_rebuilt condition.rebuilt_rebuilt)
      (Expr.reduced_of_rebuilt result.rebuilt_rebuilt)

/-- Folding leaves branches with folded parts as they are. -/
theorem Branch.reducedList_reducedList :
    ∀ branches : List Branch,
      Branch.reducedList (Branch.reducedList branches) = Branch.reducedList branches
  | [] => rfl
  | branch :: rest =>
    congrArg₂ List.cons branch.reduced_reduced (Branch.reducedList_reducedList rest)

/-- Folding leaves a sort key with a folded expression as it is. -/
theorem SortKey.reduced_reduced : ∀ key : SortKey, key.reduced.reduced = key.reduced
  | ⟨expr, direction⟩ =>
    congrArg (SortKey.mk · direction) (Expr.reduced_of_rebuilt expr.rebuilt_rebuilt)

/-- Folding leaves sort keys with folded expressions as they are. -/
theorem SortKey.reducedList_reducedList :
    ∀ keys : List SortKey, SortKey.reducedList (SortKey.reducedList keys) = SortKey.reducedList keys
  | [] => rfl
  | key :: rest => congrArg₂ List.cons key.reduced_reduced (SortKey.reducedList_reducedList rest)

/-- Folding leaves a select item with a folded expression as it is. -/
theorem SelectItem.reduced_reduced : ∀ item : SelectItem, item.reduced.reduced = item.reduced
  | ⟨expr, alias?⟩ =>
    congrArg (SelectItem.mk · alias?) (Expr.reduced_of_rebuilt expr.rebuilt_rebuilt)

/-- Folding leaves select items with folded expressions as they are. -/
theorem SelectItem.reducedList_reducedList :
    ∀ items : List SelectItem,
      SelectItem.reducedList (SelectItem.reducedList items) = SelectItem.reducedList items
  | [] => rfl
  | item :: rest =>
    congrArg₂ List.cons item.reduced_reduced (SelectItem.reducedList_reducedList rest)

/-- Folding leaves what matches the rows of a join as it is, if its condition is folded. -/
theorem JoinConstraint.reduced_reduced :
    ∀ constraint : JoinConstraint, constraint.reduced.reduced = constraint.reduced
  | .on condition =>
    congrArg JoinConstraint.on (Expr.reduced_of_rebuilt condition.rebuilt_rebuilt)
  | .using _ => rfl
  | .none => rfl

/-- Folding leaves a table with folded parts as it is. -/
theorem TableRef.reduced_reduced : ∀ table : TableRef, table.reduced.reduced = table.reduced
  | .table _ _ => rfl
  | .subquery query name => congrArg (TableRef.subquery · name) query.reduced_reduced
  | .join left kind natural right constraint => by
    change TableRef.join left.reduced.reduced kind natural right.reduced.reduced
      constraint.reduced.reduced = _
    rw [left.reduced_reduced, right.reduced_reduced, constraint.reduced_reduced]
    rfl
  | .nested inner => congrArg TableRef.nested inner.reduced_reduced

/-- Folding leaves tables with folded parts as they are. -/
theorem TableRef.reducedList_reducedList :
    ∀ tables : List TableRef,
      TableRef.reducedList (TableRef.reducedList tables) = TableRef.reducedList tables
  | [] => rfl
  | table :: rest =>
    congrArg₂ List.cons table.reduced_reduced (TableRef.reducedList_reducedList rest)

/-- Folding leaves a specification with folded parts as it is. -/
theorem QuerySpec.reduced_reduced : ∀ spec : QuerySpec, spec.reduced.reduced = spec.reduced
  | ⟨distinct, top, items, tables, condition, groups, having, keys, offset⟩ => by
    change QuerySpec.mk distinct top (SelectItem.reducedList (SelectItem.reducedList items))
      (TableRef.reducedList (TableRef.reducedList tables))
      (Expr.reducedOption (Expr.reducedOption condition))
      (Expr.reducedList (Expr.reducedList groups)) (Expr.reducedOption (Expr.reducedOption having))
      (SortKey.reducedList (SortKey.reducedList keys)) offset = _
    rw [SelectItem.reducedList_reducedList items, TableRef.reducedList_reducedList tables,
      Expr.reducedOption_reducedOption condition, Expr.reducedList_reducedList groups,
      Expr.reducedOption_reducedOption having, SortKey.reducedList_reducedList keys]
    rfl

/-- Folding leaves a query body with folded parts as it is. -/
theorem QueryBody.reduced_reduced : ∀ body : QueryBody, body.reduced.reduced = body.reduced
  | .spec spec => congrArg QueryBody.spec spec.reduced_reduced
  | .setOperation op all left right =>
    congrArg₂ (QueryBody.setOperation op all) left.reduced_reduced right.reduced_reduced
  | .nested query => congrArg QueryBody.nested query.reduced_reduced

/-- Folding leaves a named query with folded parts as it is. -/
theorem CommonTable.reduced_reduced : ∀ table : CommonTable, table.reduced.reduced = table.reduced
  | ⟨name, columns, query⟩ => congrArg (CommonTable.mk name columns) query.reduced_reduced

/-- Folding leaves named queries with folded parts as they are. -/
theorem CommonTable.reducedList_reducedList :
    ∀ tables : List CommonTable,
      CommonTable.reducedList (CommonTable.reducedList tables) = CommonTable.reducedList tables
  | [] => rfl
  | table :: rest =>
    congrArg₂ List.cons table.reduced_reduced (CommonTable.reducedList_reducedList rest)

/-- Folding leaves a folded query as it is. -/
theorem Query.reduced_reduced : ∀ query : Query, query.reduced.reduced = query.reduced
  | ⟨commonTables, body, keys, offset⟩ => by
    change Query.mk (CommonTable.reducedList (CommonTable.reducedList commonTables))
      body.reduced.reduced (SortKey.reducedList (SortKey.reducedList keys)) offset = _
    rw [CommonTable.reducedList_reducedList commonTables, body.reduced_reduced,
      SortKey.reducedList_reducedList keys]
    rfl

end

end Adql
