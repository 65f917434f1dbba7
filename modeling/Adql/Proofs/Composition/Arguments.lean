import Adql.Proofs.Composition.Queries

/-!
# Arguments

Inside parentheses, whatever a rule does in front of words carries over to longer texts, whatever
stands behind the words (`apply_carriesInside`): words that close the parenthesis close it before they
end, and the rule does not get beyond that.  So the rules for expressions carry over to texts with a
comma behind the words as they do to texts with a closing parenthesis there (`apply_carriesArguments`).
-/

namespace Adql

open Adql.Parser Adql.Grammar

variable {α : Type} {behind words : List Word}

/-- There may be fewer last words. -/
theorem NotesWithin.mono {last fewer : Nat} {p : Parser α} (h : NotesWithin last p words)
    (le : fewer ≤ last) : NotesWithin fewer p words :=
  fun good session faces least below => h good session faces least (Nat.le_trans below le)

/-- A rule that is applied in front of words is applied in front of a part of them, if that ends at
a closing parenthesis. -/
theorem Rule.applies_of_append {rule : Rule} {front back : List Word} {closing : Word}
    (hclosing : closing.kind = .rightParen) (applies : rule.applies (front ++ closing :: back)) :
    rule.applies front := by
  cases front with
  | nil =>
    cases rule with
    | geometry function =>
      obtain ⟨_, _, split, hfunction⟩ := applies
      cases split
      unfold Token.geometryFunction? at hfunction
      split at hfunction
      · next hkind => exact absurd (hclosing.symm.trans hkind) nofun
      · cases hfunction
    | aggregate =>
      have start : firstKind ([] ++ closing :: back) ∈ startKinds := applies
      rw [List.nil_append, firstKind_cons, hclosing] at start
      exact absurd start (by decide)
    | _ => trivial
  | cons word front =>
    cases rule with
    | geometry function =>
      obtain ⟨_, _, split, hfunction⟩ := applies
      cases split
      exact ⟨word, front, rfl, hfunction⟩
    | aggregate => exact applies
    | _ => trivial

/-- What carries over to texts with a closing parenthesis behind the words carries over inside a
parenthesis that it closes, whatever else stands behind it. -/
theorem Carries.closed {p : Parser α} {front back : List Word} {closing : Word}
    (balanced : balance front = 0) (h : Carries (closing :: back) 0 p p front (Leaves 0 front))
    (h' : Carries (closing :: (back ++ behind)) 0 p p front (Leaves 0 front)) :
    Carries behind 1 p p (front ++ closing :: back) (Leaves 1 (front ++ closing :: back)) := by
  have longer : behind.length ≤ (closing :: (back ++ behind)).length := by simp; omega
  have whole (words : List Word) :
      words ++ closing :: back ++ behind = words ++ closing :: (back ++ behind) := by simp
  have close : 0 ≤ balance front := by omega
  cases h with
  | @reads a opened rest meets counts reads carries =>
    obtain ⟨rfl, shorter⟩ := meets
    refine .reads ⟨rfl, by simpa using shorter⟩ ?_ (carries close).reads fun _ => ?_
    · rw [balance_append, balance_append]
      omega
    · rw [whole, whole]
      have within := h'.readsWithin reads close
      exact ⟨within.reads, within.keeps.mono longer⟩
  | stalls stalls carries =>
    refine .stalls (carries close).stalls fun _ => ?_
    rw [whole]
    have within := h'.stallsWithin stalls close
    exact ⟨within.stalls, within.keeps.mono longer⟩
  | aborts aborts carries =>
    refine .aborts (carries close).aborts fun _ => ?_
    rw [whole]
    have within := h'.abortsWithin aborts close
    exact ⟨within.aborts, within.keeps.mono longer⟩

/-- Inside a parenthesis, whatever a rule does in front of words carries over to the words with
others behind them. -/
theorem apply_carriesInside (behind : List Word) (allowance : Nat) (rule : Rule) (words : List Word)
    (applies : rule.applies words) :
    Carries behind 1 (apply true allowance rule) (apply true allowance rule) words
      (Leaves 1 words) := by
  by_cases close : 0 < balance words
  · obtain ⟨front, closing, back, rfl, hclosing, balanced⟩ := exists_closing close
    have closes (rest : List Word) : firstKind (closing :: rest) = .rightParen := hclosing
    have inner := Rule.applies_of_append hclosing applies
    exact .closed balanced ((apply_carries (closes _) allowance).carries rule front inner)
      ((apply_carries (closes _) allowance).carries rule front inner)
  · have closing : firstKind [TokenKind.rightParen.word] = .rightParen := rfl
    cases (apply_carries closing allowance).carries rule words applies with
    | reads meets counts reads _ =>
      obtain ⟨rfl, shorter⟩ := meets
      exact .reads ⟨rfl, shorter⟩ (by omega) reads fun _ => by omega
    | stalls stalls _ => exact .stalls stalls fun _ => by omega
    | aborts aborts _ => exact .aborts aborts fun _ => by omega

/-- Whatever the rules for expressions do in front of words carries over to the words with others
behind them that start with what ends an argument. -/
theorem apply_carriesArguments (closes : EndsArgument behind) (allowance : Nat) :
    CarriesExpressions behind (apply true allowance) := by
  induction allowance with
  | zero =>
    exact ⟨closes, fun rule words _ _ => .aborts (.apply_zero rule words) fun _ => .apply_zero rule _,
      apply_carriesInside behind 0, fun _ _ named => Stalls.fails named⟩
  | succ allowance ih =>
    exact ⟨closes, fun rule words isExpression applies => .apply (ih.body rule words isExpression applies),
      apply_carriesInside behind (allowance + 1), fun _ _ named => Stalls.fails named⟩

/-- An expression that is read up to the end of the words is read up to what ends an argument behind
them, and nothing is noted behind that. -/
theorem Reads.argument {allowance : Nat} {expr : Expr}
    (h : Reads (Grammar.apply true allowance .expression) words expr [])
    (closes : EndsArgument behind) :
    ReadsWithin behind.length (Grammar.apply true allowance .expression) (words ++ behind) expr
      behind := by
  have carries := (apply_carriesArguments closes allowance).carries .expression words rfl trivial
  have balanced := carries.balance_of_reads h
  rw [balance_nil] at balanced
  exact carries.readsWithin h (by omega)

end Adql
