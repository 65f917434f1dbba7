import Adql.Proofs.Expected.Queries

/-!
# All rules help

Whatever the front, a rule that may nest deep enough is honest (`serves_apply`).  The induction is on
how deep rules may nest: the body of a rule applies the others one level deeper, rules of lower ranks
in front of the same words and any rules behind a word.
-/

namespace Adql

open Adql.Parser Adql.Grammar

/-- No rule has a higher rank. -/
theorem Rule.rank_le (rule : Rule) : rule.rank ≤ 7 := by
  cases rule <;> simp [Rule.rank]

section

variable {size n : Nat}

/-- The body of a rule is helpful if the rules are that it applies. -/
theorem helpful_body {rule : Rule} (h : HelpfulRules size rule.rank n) (noCall : rule.isCall = false) :
    Helpful size rule.follow (body true (Grammar.apply true n) rule) := by
  cases rule with
  | query => exact helpful_query h (by decide)
  | queryBody => exact helpful_queryBody h (by decide)
  | queryTerm => exact helpful_queryTerm h (by decide)
  | querySpec => exact (ready_querySpec h).toHelpful
  | selectList => exact helpful_selectList h (by decide)
  | selectItem => exact helpful_selectItem h (by decide)
  | qualifiedWildcard => exact helpful_qualifiedWildcard
  | derivedColumn => exact helpful_derivedColumn h (by decide)
  | aliasName => exact ready_aliasName.toHelpful
  | tableReference => exact helpful_tableReference h (by decide)
  | tablePrimary => exact helpful_tablePrimary h (by decide)
  | derivedTable => exact (ready_derivedTable h).toHelpful
  | nestedTable => exact (ready_nestedTable h).toHelpful
  | commonTable => exact (ready_commonTable h).toHelpful
  | sortKey => exact helpful_sortKey h (by decide)
  | expression =>
    exact ((h.here (.operators 0) (by decide)).helpful rfl).mono (runEnds_mono (Nat.zero_le _))
  | operators level => exact helpful_operators h (Nat.lt_succ_self 2)
  | parenthesized => exact (ready_parenthesizedExpression h).toHelpful
  | parenthesizedTrial => exact (h.here .parenthesized (by decide)).helpful rfl
  | scalarSubquery => exact (ready_scalarSubquery h).toHelpful
  | subqueryTrial => exact (h.here .scalarSubquery (by decide)).helpful rfl
  | «exists» => exact (ready_existence h).toHelpful
  | aggregate => cases noCall
  | functionCall => exact (ready_functionCall h).toHelpful
  | geometry function => cases noCall
  | case => exact (ready_caseDistinction h).toHelpful
  | cast => exact (ready_conversion h).toHelpful
  | dataType => exact helpful_dataType

/-- A rule that may nest deep enough is honest in front of few words. -/
theorem serves_apply (rule : Rule) (size allowance : Nat) (deep : 12 + 8 * size + rule.rank < allowance) :
    Serves size allowance rule := by
  induction allowance generalizing size rule with
  | zero => omega
  | succ n ih =>
    intro front few there
    have room : 0 < size := Nat.lt_of_le_of_lt (Nat.zero_le _) few
    have rules : HelpfulRules size rule.rank n :=
      ⟨by omega, fun other lower => ih other size (by omega), fun other => ih other (size - 1) (by
        have low := other.rank_le
        omega)⟩
    suffices h : ∃ outcome, Honest rule.follow (body true (Grammar.apply true n) rule) front outcome by
      obtain ⟨outcome, honest⟩ := h
      exact ⟨outcome, honest.apply⟩
    cases call : rule.isCall with
    | false => exact (helpful_body rules call).honest front few
    | true =>
      obtain ⟨word, front, rfl⟩ := List.exists_cons_of_ne_nil (there call)
      cases rule with
      | aggregate => exact serves_aggregate rules word front few
      | geometry function => exact serves_geometry rules function word front few
      | _ => cases call

/-- A query that may nest deep enough is helpful. -/
theorem helpful_apply_query (size allowance : Nat) (deep : 16 + 8 * size < allowance) :
    Helpful size queryEnds (Grammar.apply true allowance .query) :=
  (serves_apply .query size allowance (by simp only [Rule.rank]; omega)).helpful rfl

end

end Adql
