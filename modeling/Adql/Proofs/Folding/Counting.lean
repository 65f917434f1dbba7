import Adql.CommandLine.Run
import Adql.Proofs.Folding.Observed

/-!
# What folding counts

Folding counts the nodes that it replaces, so nothing is counted exactly if the tree is left as it
is.  `CountsChanges` says this of an action that makes a part of a new tree: with it goes whether
the parts before it were kept, since a whole is left as it is only if all its parts are.  A
replacement is counted and makes a literal of something else (`CountsChanges.simplify`); all other
nodes put their parts together again, by induction over the trees.

As a folded tree is left as it is, folding it again counts nothing; and since folding touches no
column, the list of columns does not tell whether a query was folded (`folding_once`).
-/

namespace Adql

namespace Folding

variable {α β : Type} {kept : Prop}

/-- An action counts whether it changes a value: it never counts backwards, and its value is the
original one exactly if what came before was kept and nothing more is counted. -/
def CountsChanges (kept : Prop) (action : StateM Nat α) (original : α) : Prop :=
  ∀ count, count ≤ (action.run count).2 ∧
    (kept ∧ (action.run count).2 = count ↔ (action.run count).1 = original)

namespace CountsChanges

/-- Nothing is counted if nothing is done. -/
theorem pure {value original : α} (same : kept ↔ value = original) :
    CountsChanges kept (Pure.pure value) original :=
  fun count => ⟨Nat.le_refl count, (and_iff_left rfl).trans same⟩

/-- A whole is changed if its first part is, or what is made behind it. -/
theorem bind {action : StateM Nat α} {part : α} {next : α → StateM Nat β} {whole : β}
    (first : CountsChanges True action part)
    (rest : ∀ value, CountsChanges (kept ∧ value = part) (next value) whole) :
    CountsChanges kept (action >>= next) whole := by
  intro count
  rw [StateT.run_bind]
  obtain ⟨forward, changed⟩ := first count
  obtain ⟨further, whole⟩ := rest (action.run count).1 (action.run count).2
  rw [true_and] at changed
  refine ⟨Nat.le_trans forward further, ?_⟩
  change _ ↔ ((next (action.run count).1).run (action.run count).2).1 = _
  rw [← whole, ← changed, and_assoc]
  change _ ∧ ((next (action.run count).1).run (action.run count).2).2 = _ ↔ _
  constructor
  · rintro ⟨hkept, none⟩
    exact ⟨hkept, by omega, by omega⟩
  · rintro ⟨hkept, here, there⟩
    exact ⟨hkept, by omega⟩

/-- What is no literal is replaced by one, or left as its parts are. -/
theorem simplify {expr original : Expr} (operation : ∀ value, original ≠ .literal value) :
    CountsChanges (True ∧ expr = original) (simplify expr) original := by
  intro count
  unfold Folding.simplify
  cases value? expr with
  | none => exact pure (by simp) count
  | some value =>
    refine ⟨Nat.le_succ count, ?_⟩
    constructor
    · rintro ⟨_, none⟩
      exact absurd none (Nat.succ_ne_self count)
    · intro replaced
      exact absurd replaced.symm (operation value)

/-- The pass over an expression counts whether it changes it, if its parts do. -/
theorem pass {expr : Expr} (parts : CountsChanges True (expr.rebuild transformer) expr) :
    CountsChanges True (transformer (.expr expr) (expr.rebuild transformer)) expr := by
  by_cases literal : ∃ value, expr = .literal value
  · obtain ⟨value, rfl⟩ := literal
    exact pure (by simp)
  · exact bind parts fun _ => simplify fun value is => literal ⟨value, is⟩

end CountsChanges

end Folding

open Folding Folding.CountsChanges

mutual

/-- Rebuilding an expression counts whether it changes it. -/
theorem Expr.rebuild_counts : ∀ expr : Expr, CountsChanges True (expr.rebuild transformer) expr
  | .literal _ => pure (by simp)
  | .column _ => pure (by simp)
  | .wildcard _ => pure (by simp)
  | .binary left _ right =>
    bind (pass left.rebuild_counts) fun _ => bind (pass right.rebuild_counts) fun _ =>
      pure (by simp)
  | .unary _ operand => bind (pass operand.rebuild_counts) fun _ => pure (by simp)
  | .call _ arguments _ => bind (Expr.rebuildList_counts arguments) fun _ => pure (by simp)
  | .geometry _ arguments => bind (Expr.rebuildList_counts arguments) fun _ => pure (by simp)
  | .isNull operand _ => bind (pass operand.rebuild_counts) fun _ => pure (by simp)
  | .between operand low high _ =>
    bind (pass operand.rebuild_counts) fun _ => bind (pass low.rebuild_counts) fun _ =>
      bind (pass high.rebuild_counts) fun _ => pure (by simp [and_assoc])
  | .inList operand items _ =>
    bind (pass operand.rebuild_counts) fun _ => bind (Expr.rebuildList_counts items) fun _ =>
      pure (by simp)
  | .inQuery operand query _ =>
    bind (pass operand.rebuild_counts) fun _ => bind query.rebuild_counts fun _ => pure (by simp)
  | .like operand pattern escape _ _ =>
    bind (pass operand.rebuild_counts) fun _ => bind (pass pattern.rebuild_counts) fun _ =>
      bind (Expr.rebuildOption_counts escape) fun _ => pure (by simp [and_assoc])
  | .exists query => bind query.rebuild_counts fun _ => pure (by simp)
  | .subquery query => bind query.rebuild_counts fun _ => pure (by simp)
  | .case subject branches otherwise =>
    bind (Expr.rebuildOption_counts subject) fun _ =>
      bind (Branch.rebuildList_counts branches) fun _ =>
        bind (Expr.rebuildOption_counts otherwise) fun _ => pure (by simp [and_assoc])
  | .cast operand _ => bind (pass operand.rebuild_counts) fun _ => pure (by simp)
  | .paren inner => bind (pass inner.rebuild_counts) fun _ => pure (by simp)

/-- The pass over expressions counts whether it changes them. -/
theorem Expr.rebuildList_counts :
    ∀ exprs : List Expr, CountsChanges True (Expr.rebuildList transformer exprs) exprs
  | [] => pure (by simp)
  | expr :: rest =>
    bind (pass expr.rebuild_counts) fun _ => bind (Expr.rebuildList_counts rest) fun _ =>
      pure (by simp)

/-- The pass over an expression that may be missing counts whether it changes it. -/
theorem Expr.rebuildOption_counts :
    ∀ expr? : Option Expr, CountsChanges True (Expr.rebuildOption transformer expr?) expr?
  | none => pure (by simp)
  | some expr => bind (pass expr.rebuild_counts) fun _ => pure (by simp)

/-- Rebuilding a branch counts whether it changes it. -/
theorem Branch.rebuild_counts :
    ∀ branch : Branch, CountsChanges True (branch.rebuild transformer) branch
  | ⟨condition, result⟩ =>
    bind (pass condition.rebuild_counts) fun _ => bind (pass result.rebuild_counts) fun _ =>
      pure (by simp)

/-- Rebuilding branches counts whether it changes them. -/
theorem Branch.rebuildList_counts :
    ∀ branches : List Branch, CountsChanges True (Branch.rebuildList transformer branches) branches
  | [] => pure (by simp)
  | branch :: rest =>
    bind branch.rebuild_counts fun _ => bind (Branch.rebuildList_counts rest) fun _ =>
      pure (by simp)

/-- Rebuilding a sort key counts whether it changes it. -/
theorem SortKey.rebuild_counts :
    ∀ key : SortKey, CountsChanges True (key.rebuild transformer) key
  | ⟨expr, _⟩ => bind (pass expr.rebuild_counts) fun _ => pure (by simp)

/-- Rebuilding sort keys counts whether it changes them. -/
theorem SortKey.rebuildList_counts :
    ∀ keys : List SortKey, CountsChanges True (SortKey.rebuildList transformer keys) keys
  | [] => pure (by simp)
  | key :: rest =>
    bind key.rebuild_counts fun _ => bind (SortKey.rebuildList_counts rest) fun _ =>
      pure (by simp)

/-- Rebuilding a select item counts whether it changes it. -/
theorem SelectItem.rebuild_counts :
    ∀ item : SelectItem, CountsChanges True (item.rebuild transformer) item
  | ⟨expr, _⟩ => bind (pass expr.rebuild_counts) fun _ => pure (by simp)

/-- Rebuilding select items counts whether it changes them. -/
theorem SelectItem.rebuildList_counts :
    ∀ items : List SelectItem, CountsChanges True (SelectItem.rebuildList transformer items) items
  | [] => pure (by simp)
  | item :: rest =>
    bind item.rebuild_counts fun _ => bind (SelectItem.rebuildList_counts rest) fun _ =>
      pure (by simp)

/-- Rebuilding what matches the rows of a join counts whether it changes it. -/
theorem JoinConstraint.rebuild_counts :
    ∀ constraint : JoinConstraint, CountsChanges True (constraint.rebuild transformer) constraint
  | .on condition => bind (pass condition.rebuild_counts) fun _ => pure (by simp)
  | .using _ => pure (by simp)
  | .none => pure (by simp)

/-- Rebuilding a table counts whether it changes it. -/
theorem TableRef.rebuild_counts :
    ∀ table : TableRef, CountsChanges True (table.rebuild transformer) table
  | .table _ _ => pure (by simp)
  | .subquery query _ => bind query.rebuild_counts fun _ => pure (by simp)
  | .join left _ _ right constraint =>
    bind left.rebuild_counts fun _ => bind right.rebuild_counts fun _ =>
      bind constraint.rebuild_counts fun _ => pure (by simp [and_assoc])
  | .nested inner => bind inner.rebuild_counts fun _ => pure (by simp)

/-- Rebuilding tables counts whether it changes them. -/
theorem TableRef.rebuildList_counts :
    ∀ tables : List TableRef, CountsChanges True (TableRef.rebuildList transformer tables) tables
  | [] => pure (by simp)
  | table :: rest =>
    bind table.rebuild_counts fun _ => bind (TableRef.rebuildList_counts rest) fun _ =>
      pure (by simp)

/-- Rebuilding a specification counts whether it changes it. -/
theorem QuerySpec.rebuild_counts :
    ∀ spec : QuerySpec, CountsChanges True (spec.rebuild transformer) spec
  | ⟨_, _, items, tables, condition, groups, having, keys, _⟩ =>
    bind (SelectItem.rebuildList_counts items) fun _ =>
      bind (TableRef.rebuildList_counts tables) fun _ =>
        bind (Expr.rebuildOption_counts condition) fun _ =>
          bind (Expr.rebuildList_counts groups) fun _ =>
            bind (Expr.rebuildOption_counts having) fun _ =>
              bind (SortKey.rebuildList_counts keys) fun _ => pure (by simp [and_assoc])

/-- Rebuilding a query body counts whether it changes it. -/
theorem QueryBody.rebuild_counts :
    ∀ body : QueryBody, CountsChanges True (body.rebuild transformer) body
  | .spec spec => bind spec.rebuild_counts fun _ => pure (by simp)
  | .setOperation _ _ left right =>
    bind left.rebuild_counts fun _ => bind right.rebuild_counts fun _ => pure (by simp)
  | .nested query => bind query.rebuild_counts fun _ => pure (by simp)

/-- Rebuilding a named query counts whether it changes it. -/
theorem CommonTable.rebuild_counts :
    ∀ table : CommonTable, CountsChanges True (table.rebuild transformer) table
  | ⟨_, _, query⟩ => bind query.rebuild_counts fun _ => pure (by simp)

/-- Rebuilding named queries counts whether it changes them. -/
theorem CommonTable.rebuildList_counts :
    ∀ tables : List CommonTable,
      CountsChanges True (CommonTable.rebuildList transformer tables) tables
  | [] => pure (by simp)
  | table :: rest =>
    bind table.rebuild_counts fun _ => bind (CommonTable.rebuildList_counts rest) fun _ =>
      pure (by simp)

/-- Rebuilding a query counts whether it changes it. -/
theorem Query.rebuild_counts :
    ∀ query : Query, CountsChanges True (query.rebuild transformer) query
  | ⟨commonTables, body, keys, _⟩ =>
    bind (CommonTable.rebuildList_counts commonTables) fun _ => bind body.rebuild_counts fun _ =>
      bind (SortKey.rebuildList_counts keys) fun _ => pure (by simp [and_assoc])

end

/-- Folding counts nothing exactly if it leaves the query as it is. -/
theorem Query.folded_snd_eq_zero (query : Query) : query.folded.2 = 0 ↔ query.folded.1 = query := by
  have counted := (query.rebuild_counts 0).2
  rwa [true_and] at counted

/-! ### Folding once -/

/-- Folding a folded query leaves it as it is, and counts nothing. -/
theorem Query.folded_folded (query : Query) : query.folded.1.folded = (query.folded.1, 0) := by
  have same : query.folded.1.folded.1 = query.folded.1 := by
    rw [folded_fst, folded_fst, reduced_reduced]
  exact Prod.ext same ((folded_snd_eq_zero _).mpr same)

namespace CommandLine

/-- The list of columns is that of the query, folded or not. -/
theorem outputLines_eq (invocation : Invocation) (query : Query) :
    outputLines invocation query =
      (if invocation.columns then columnNames query else []) ++
        (render (if invocation.fold then query.folded.1 else query) invocation.format).toList := by
  have names : columnNames query.folded.1 = columnNames query := by
    rw [columnNames, Query.folded_fst, Query.columns_reduced, columnNames]
  unfold outputLines
  cases invocation.fold with
  | false => rfl
  | true =>
    change (if invocation.columns then columnNames query.folded.1 else []) ++
      (render query.folded.1 invocation.format).toList = _
    rw [names]
    rfl

/-- A run that prints no queries reports the same whether it folds them or not. -/
theorem run_fold (invocation : Invocation) (surroundings : Surroundings) :
    run { invocation with fold := true, format := .none } surroundings =
      run { invocation with fold := false, format := .none } surroundings := by
  have lines : outputLines { invocation with fold := true, format := .none } =
      outputLines { invocation with fold := false, format := .none } := by
    funext query
    rw [outputLines_eq, outputLines_eq]
    rfl
  unfold run checkInput checkText
  rw [lines]
  rfl

end CommandLine

/-- Folding once is enough: folding a folded query leaves it as it is and counts nothing.  Folding
counts nothing exactly if it leaves the query as it is.  It touches no column, so the program lists
the same columns whether it folds or not, and prints the same if it prints nothing else. -/
theorem folding_once :
    (∀ query : Query,
      query.folded.1.folded = (query.folded.1, 0) ∧
      (query.folded.2 = 0 ↔ query.folded.1 = query) ∧
      query.folded.1.columns = query.columns ∧
      ∀ invocation : CommandLine.Invocation,
        CommandLine.outputLines invocation query =
          (if invocation.columns then CommandLine.columnNames query else []) ++
            (CommandLine.render (if invocation.fold then query.folded.1 else query)
              invocation.format).toList) ∧
    ∀ (invocation : CommandLine.Invocation) (surroundings : CommandLine.Surroundings),
      CommandLine.run { invocation with fold := true, format := .none } surroundings =
        CommandLine.run { invocation with fold := false, format := .none } surroundings := by
  refine ⟨fun query => ⟨query.folded_folded, query.folded_snd_eq_zero, ?_, ?_⟩,
    CommandLine.run_fold⟩
  · rw [query.folded_fst, query.columns_reduced]
  · exact fun invocation => CommandLine.outputLines_eq invocation query

end Adql
