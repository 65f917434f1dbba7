import Adql.Proofs.RoundTrip.DeadEnds

/-!
# Rules preserve what they read

Whatever a rule reads, the bare words of what it yields are another way to write it
(`keeps_rules`).  The proof goes by induction on how deep the rules may nest: a rule keeps what it
reads if the rules that its body applies do.
-/

namespace Adql

open Adql.Parser Adql.Grammar

/-- The body of a rule preserves what it reads, if the rules that it applies do. -/
theorem body_preserves {apply : (rule : Rule) → Parser rule.Result} (keeps : KeepsRules apply)
    (rule : Rule) (words : List Word) (applies : rule.applies words) :
    Ensures (body true apply rule) words (Preserved rule (body true apply rule) words) := by
  cases rule with
  | query => exact (wholeQuery_kept keeps words).mono fun _ _ ⟨kept, start⟩ => ⟨kept, start, trivial⟩
  | queryBody => exact (queryBody_kept keeps words).mono fun _ _ ⟨kept, start, plain⟩ => ⟨kept, start, plain⟩
  | queryTerm => exact (queryTerm_kept keeps words).mono fun _ _ ⟨kept, start, plain⟩ => ⟨kept, start, plain⟩
  | querySpec => exact (querySpec_kept keeps words).mono fun _ _ ⟨kept, start, shape⟩ => ⟨kept, start, shape⟩
  | selectList => exact (selectList_kept keeps words).mono fun _ _ ⟨kept, shape⟩ => ⟨kept, trivial, shape⟩
  | selectItem => exact (selectItem_kept keeps words).mono fun _ _ ⟨kept, start⟩ => ⟨kept, start, trivial⟩
  | qualifiedWildcard =>
    exact (qualifiedWildcard_kept words).mono fun _ _ ⟨kept, start⟩ => ⟨kept, start, trivial⟩
  | derivedColumn =>
    exact (derivedColumn_kept keeps words).mono fun _ _ ⟨kept, start⟩ => ⟨kept, start, trivial⟩
  | aliasName => exact (aliasName_kept words).mono fun _ _ kept => ⟨kept, trivial, trivial⟩
  | tableReference =>
    exact (tableReference_kept keeps words).mono fun _ _ ⟨kept, start⟩ => ⟨kept, start, trivial⟩
  | tablePrimary =>
    exact (tablePrimary_kept keeps words).mono fun _ _ ⟨kept, start⟩ => ⟨kept, start, trivial⟩
  | derivedTable =>
    exact (derivedTable_kept keeps words).mono fun _ _ ⟨kept, start⟩ => ⟨kept, start, trivial⟩
  | nestedTable =>
    exact (nestedTable_kept keeps words).mono fun _ _ ⟨kept, start⟩ => ⟨kept, start, trivial⟩
  | commonTable => exact (commonTable_kept keeps words).mono fun _ _ kept => ⟨kept, trivial, trivial⟩
  | sortKey => exact (sortKey_kept keeps words).mono fun _ _ ⟨kept, start⟩ => ⟨kept, start, trivial⟩
  | expression =>
    refine (operators_kept keeps 0 words).mono fun _ _ ⟨kept, start⟩ => ⟨?_, start, trivial⟩
    exact kept.follow fun _ h => .of_ends h
  | operators level =>
    exact (joined_kept keeps level words).mono fun _ _ ⟨kept, start⟩ => ⟨kept, start, trivial⟩
  | parenthesized =>
    exact (parenthesizedExpression_kept keeps words).mono fun _ _ ⟨kept, start⟩ =>
      ⟨kept, start, trivial⟩
  | parenthesizedTrial =>
    exact (keeps.preserves .parenthesized words trivial).mono fun _ _ ⟨kept, start, _⟩ => ⟨kept, start, trivial⟩
  | scalarSubquery =>
    exact (scalarSubquery_kept keeps words).mono fun _ _ ⟨kept, start⟩ => ⟨kept, start, trivial⟩
  | subqueryTrial =>
    exact (keeps.preserves .scalarSubquery words trivial).mono fun _ _ ⟨kept, start, _⟩ => ⟨kept, start, trivial⟩
  | «exists» =>
    exact (existence_kept keeps words).mono fun _ _ ⟨kept, start⟩ => ⟨kept, start, trivial⟩
  | aggregate =>
    exact (aggregate_kept keeps applies).mono fun _ _ ⟨kept, start⟩ => ⟨kept, start, trivial⟩
  | functionCall =>
    exact (functionCall_kept keeps words).mono fun _ _ ⟨kept, start, call⟩ => ⟨kept, start, call⟩
  | geometry function =>
    exact (geometryCall_kept keeps applies).mono fun _ _ ⟨kept, start, call⟩ => ⟨kept, start, call⟩
  | case =>
    exact (caseDistinction_kept keeps words).mono fun _ _ ⟨kept, start⟩ => ⟨kept, start, trivial⟩
  | cast => exact (conversion_kept keeps words).mono fun _ _ ⟨kept, start⟩ => ⟨kept, start, trivial⟩
  | dataType => exact (dataType_kept words).mono fun _ _ kept => ⟨kept, trivial, trivial⟩

/-- Rules preserve what they read, however deep they may nest. -/
theorem keeps_rules (allowance : Nat) : KeepsRules (apply true allowance) := by
  induction allowance using Nat.strongRecOn with
  | ind allowance keeps =>
    refine ⟨fun rule words applies => .apply fun n hn => ?_, apply_moving true allowance,
      fun rule words named h => h.fails named (Nat.le_refl allowance), fun words => trialFails keeps,
      fun words => derivedFails keeps, fun words _ => wildcardFails keeps,
      fun words behind => aliasFails⟩
    subst hn
    refine (body_preserves (keeps n (Nat.lt_succ_self n)) rule words applies).mono ?_
    exact fun value rest ⟨kept, start, shape⟩ => ⟨kept.apply, start, shape⟩

end Adql
