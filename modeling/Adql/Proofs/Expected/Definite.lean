import Adql.Proofs.Composition.Memberships
import Adql.Proofs.Expected.Honest

/-!
# Parsers that end with a word of their own

Where a choice is decided for its first alternative, it has to be so whatever stands behind the front.
That is the case if what the alternative reads ends with a word that it waits for: a name, a star or a
closing parenthesis.  What stands behind such a word is not looked at (`Lasts`).
-/

namespace Adql

open Adql.Parser Adql.Grammar

variable {α β σ : Type}

/-- In front of the words the parser reads the value and leaves the rest, whatever stands behind
them. -/
def Lasts (p : Parser α) (words : List Word) (a : α) (rest : List Word) : Prop :=
  ∀ behind, Reads p (words ++ behind) a (rest ++ behind)

namespace Lasts

variable {p q : Parser α} {f : α → Parser β} {words middle rest : List Word} {a : α} {b : β}
  {word : Word} {kind : TokenKind}

/-- A sequence of parsers that do not look behind the words. -/
theorem bind (hp : Lasts p words a middle) (hf : Lasts (f a) middle b rest) :
    Lasts (p >>= f) words b rest :=
  fun behind => (hp behind).bind (hf behind)

/-- A value is yielded at once. -/
theorem pure (a : α) (words : List Word) : Lasts (Pure.pure a) words a words :=
  fun behind => .pure a (words ++ behind)

/-- A word that has to be there. -/
theorem expect_bind (there : word.kind = kind) (h : Lasts q words a rest) :
    Lasts (expect kind >>= fun _ => q) (word :: words) a rest :=
  fun behind => .expect_bind there (h behind)

/-- A word that is eaten. -/
theorem eat_found {f : Bool → Parser α} (there : word.kind = kind) (h : Lasts (f true) words a rest) :
    Lasts (eat kind >>= f) (word :: words) a rest :=
  fun behind => (Reads.eat_true there).bind (h behind)

/-- A word that is not there to be eaten. -/
theorem eat_missed {f : Bool → Parser α} (other : word.kind ≠ kind)
    (h : Lasts (f false) (word :: words) a rest) : Lasts (eat kind >>= f) (word :: words) a rest :=
  fun behind => (Reads.eat_false (show firstKind (word :: words ++ behind) ≠ kind from other)).bind
    (h behind)

end Lasts

/-- A parser is definite if what it yields lasts. -/
theorem Definite.of_ensures {p : Parser α}
    (h : ∀ words, Ensures p words (Lasts p words) fun _ => True) : Definite p :=
  fun front _ _ reads => (h front).of_reads reads (.any front)

/-- A rule is definite if its body is. -/
theorem Definite.apply {rule : Rule} {allowance : Nat}
    (h : ∀ words, Ensures (body true (apply true allowance) rule) words
      (Lasts (body true (apply true allowance) rule) words) fun _ => True) :
    Definite (Grammar.apply true (allowance + 1) rule) :=
  .of_ensures fun words => (h words).apply_succ.mono fun _ _ lasts behind => (lasts behind).apply

/-! ### Names -/

/-- A name is told by its word. -/
theorem ensures_lasting_identifier (words : List Word) :
    Ensures identifier words (fun name rest => words ≠ [] ∧ rest.length < words.length ∧
      Lasts identifier words name rest) fun _ => True := by
  rcases identifier_decided words with ⟨name, word, rest, rfl, _, reads⟩ | ⟨_, stalls⟩
  · exact (reads rest).ensures ⟨nofun, Nat.lt_succ_self _, fun behind => reads (rest ++ behind)⟩
  · exact stalls.ensures

/-- Another name is told by its last word. -/
theorem ensures_lasting_aliasName (words : List Word) :
    Ensures aliasName words (Lasts aliasName words) fun _ => True := by
  refine .eatWord_bind (fun word inner split there => ?_) fun other => ?_
  · subst split
    exact (ensures_lasting_identifier inner).mono fun _ _ h => .eat_found there h.2.2
  · refine (ensures_lasting_identifier words).mono fun name rest ⟨nonempty, _, lasts⟩ => ?_
    obtain ⟨word, inner, rfl⟩ := List.exists_cons_of_ne_nil nonempty
    exact .eat_missed other lasts

/-- What stands behind another name does not matter. -/
theorem definite_aliasName (allowance : Nat) :
    Definite (Grammar.apply true (allowance + 1) .aliasName) :=
  .apply ensures_lasting_aliasName

/-- One more qualifier of a wildcard is told by its word, and so is its star. -/
theorem ensures_lasting_wildcardStep (state : Array Identifier × Bool) (words : List Word) :
    Ensures (wildcardStep state) words (fun next rest => rest.length < words.length ∧
      Lasts (wildcardStep state) words next rest) fun _ => True := by
  refine .expect_bind nofun fun point inner split there => ?_
  subst split
  refine .eat_bind nofun (fun star rest split found => ?_) fun other => ?_
  · subst split
    refine .pure ⟨Nat.lt_succ_of_lt (Nat.lt_succ_self _), ?_⟩
    exact .expect_bind there (.eat_found found (.pure _ rest))
  · refine (ensures_lasting_identifier inner).bind fun name rest ⟨nonempty, shorter, lasts⟩ => ?_
    obtain ⟨word, others, rfl⟩ := List.exists_cons_of_ne_nil nonempty
    refine .pure ⟨Nat.lt_succ_of_lt shorter, ?_⟩
    exact .expect_bind there (.eat_missed other (lasts.bind (.pure _ rest)))

/-- A wildcard is told by its words. -/
theorem ensures_lasting_qualifiedWildcard (words : List Word) :
    Ensures qualifiedWildcard words (Lasts qualifiedWildcard words) fun _ => True := by
  refine (ensures_lasting_identifier words).bind fun first inner ⟨_, _, lasts⟩ => ?_
  -- whatever has been read is read in the same way with more words behind it
  have loop : Ensures (iterate wildcardStep (#[first], false)) inner
      (Lasts (iterate wildcardStep (#[first], false)) inner) fun _ => True := by
    refine Ensures.iterate (I := fun state ahead => ∀ behind,
      Repeats .adql wildcardStep (#[first], false) (inner ++ behind) state (ahead ++ behind))
      (fun behind => .refl _ _) fun state ahead repeats => ?_
    refine (ensures_lasting_wildcardStep state ahead).mono fun next rest ⟨shorter, step⟩ => ?_
    cases next with
    | more state' =>
      refine ⟨fun behind => ?_, shorter⟩
      have fewer : (rest ++ behind).length < (ahead ++ behind).length := by
        simp only [List.length_append]
        omega
      exact (repeats behind).trans (.cons (step behind) fewer (.refl _ _))
    | done final => exact fun behind => (repeats behind).iterate (step behind)
  exact loop.bind fun state rest done => .pure (lasts.bind (done.bind (.pure _ rest)))

/-- What stands behind a wildcard does not matter. -/
theorem definite_qualifiedWildcard (allowance : Nat) :
    Definite (Grammar.apply true (allowance + 1) .qualifiedWildcard) :=
  .apply ensures_lasting_qualifiedWildcard

/-! ### Parentheses -/

section

variable {rule : Rule} {allowance : Nat} (applies : ∀ words, rule.applies words)

include applies

/-- What a rule reads up to a closing parenthesis, it reads whatever stands behind the parenthesis. -/
theorem Reads.lasts_of_closing {words rest : List Word} {closing : Word} {a : rule.Result}
    (hclosing : closing.kind = .rightParen)
    (h : Reads (Grammar.apply true allowance rule) words a (closing :: rest)) :
    Lasts (Grammar.apply true allowance rule) words a (closing :: rest) := by
  obtain ⟨used, rfl⟩ := h.suffix
  have carries (back words : List Word) :=
    have closes : firstKind (closing :: back) = .rightParen := hclosing
    (apply_carries closes allowance).carries rule words (applies words)
  have balanced : balance used = 0 := by
    have counts := (carries rest (used ++ closing :: rest)).balance_of_reads h
    rw [balance_append] at counts
    omega
  intro behind
  rw [List.append_assoc, List.cons_append]
  -- the same is read from the words in front of the parenthesis alone
  cases outcome : carries rest used with
  | reads meets _ reads after =>
    obtain ⟨rfl, left⟩ := (after (by omega)).reads.unique h
    obtain rfl := List.append_left_eq_self.mp left
    exact ((carries (rest ++ behind) used).readsWithin reads (by omega)).reads
  | stalls _ after => exact absurd (after (by omega)).stalls h.not_stalls
  | aborts _ after => exact absurd h (after (by omega)).aborts.not_reads

/-- What a rule reads in parentheses is told by the parentheses. -/
theorem ensures_lasting_parentheses (words : List Word) :
    Ensures (inParentheses (apply true allowance rule)) words
      (Lasts (inParentheses (apply true allowance rule)) words) fun _ => True := by
  refine .expect_bind nofun fun opening inner split opens => ?_
  subst split
  refine (Ensures.reads rule allowance inner).bind fun a middle reads => ?_
  refine .expect_bind nofun fun closing rest split closes => .pure ?_
  subst split
  have lasts := Reads.lasts_of_closing applies closes (reads allowance (Nat.le_refl _))
  exact .expect_bind opens (lasts.bind (.expect_bind closes (.pure a rest)))

end

/-- What stands behind an expression in parentheses does not matter. -/
theorem definite_parenthesizedTrial (allowance : Nat) :
    Definite (apply true (allowance + 2) .parenthesizedTrial) := by
  have inner (words : List Word) : Ensures (apply true (allowance + 1) .parenthesized) words
      (Lasts (apply true (allowance + 1) .parenthesized) words) fun _ => True := by
    have body : Ensures (inParentheses (apply true allowance .expression)) words
        (Lasts (inParentheses (apply true allowance .expression)) words) fun _ => True :=
      have anywhere : ∀ words, Rule.expression.applies words := fun _ => trivial
      ensures_lasting_parentheses anywhere words
    refine .apply_succ (.map (body.mono fun expr rest lasts behind => .apply ?_))
    exact (lasts behind).map Expr.paren
  exact .apply inner

/-- What stands behind a query with a name does not matter. -/
theorem definite_derivedTable (allowance : Nat) :
    Definite (apply true (allowance + 1) .derivedTable) := by
  refine .apply fun words => ?_
  have inner : Ensures (inParentheses (apply true allowance .query)) words
      (Lasts (inParentheses (apply true allowance .query)) words) fun _ => True :=
    have anywhere : ∀ words, Rule.query.applies words := fun _ => trivial
    ensures_lasting_parentheses anywhere words
  refine inner.bind fun query middle lasts => ?_
  exact (ensures_lasting_aliasName middle).bind fun name rest lasts' =>
    .pure (lasts.bind (lasts'.bind (.pure _ rest)))

end Adql
