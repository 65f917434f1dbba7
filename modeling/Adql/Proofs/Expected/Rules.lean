import Adql.Proofs.Expected.Ahead
import Adql.Proofs.Expected.Openings

/-!
# Rules that help

The bodies of the rules are helpful if the rules that they apply are.  A body applies a rule either
where it starts itself, in front of as many words, or behind a word, in front of fewer.  So the rules
are ordered by their `Rule.rank`: where it starts itself, a body applies only rules of lower ranks.

`HelpfulRules` is what a body may use: the rules of lower ranks are helpful for its own size, and all
rules are for the size below.  Two rules for calls are applied only where a word is there to start them
(`Rule.isCall`), and no more than that is asked of them.
-/

namespace Adql

open Adql.Parser Adql.Grammar

namespace Rule

/-- How many rules start where this one does, one inside the other, at most. -/
def rank : Rule → Nat
  | .dataType | .aliasName | .qualifiedWildcard => 0
  | .parenthesizedTrial | .subqueryTrial | .tablePrimary | .queryTerm => 2
  | .operators _ | .tableReference | .queryBody => 3
  | .expression | .query => 4
  | .derivedColumn | .sortKey => 5
  | .selectItem => 6
  | .selectList => 7
  | _ => 1

/-- Is the rule applied only where the first word is the name of a function? -/
def isCall : Rule → Bool
  | .aggregate | .geometry _ => true
  | _ => false

end Rule

/-- The rule is honest in front of fewer words than the size, a call in front of at least one. -/
def Serves (size allowance : Nat) (rule : Rule) : Prop :=
  ∀ front, front.length < size → (rule.isCall = true → front ≠ []) →
    ∃ outcome, Honest rule.follow (Grammar.apply true allowance rule) front outcome

/-- The rules of lower ranks are honest in front of fewer words than the size, all rules in front of
even fewer, and they nest deep enough to be completed. -/
structure HelpfulRules (size rank allowance : Nat) : Prop where
  /-- The rules nest deep enough, also where each word of the front is a parenthesis. -/
  deep : 12 + 8 * size ≤ allowance
  /-- Where a rule starts, rules of lower ranks may start. -/
  here : ∀ rule : Rule, rule.rank < rank → Serves size allowance rule
  /-- Behind a word, all rules may start. -/
  later : ∀ rule, Serves (size - 1) allowance rule

/-- A rule that is no call is helpful. -/
theorem Serves.helpful {size allowance : Nat} {rule : Rule} (h : Serves size allowance rule)
    (noCall : rule.isCall = false) : Helpful size rule.follow (Grammar.apply true allowance rule) :=
  ⟨(apply_beyond allowance rule).2,
    fun front few => h front few fun call => absurd (noCall.symm.trans call) nofun⟩

section

variable {F : Set TokenKind} {size rank n : Nat}

namespace HelpfulRules

/-- Rules that nest deep enough can be completed. -/
theorem closes (h : HelpfulRules size rank n) (rule : Rule) :
    Closes {rule.opening} rule.follow (Grammar.apply true n rule) := by
  have most : rule.height ≤ 9 := by cases rule <;> simp [Rule.height]
  exact closes_apply rule n (by have deep := h.deep; omega)

/-- Where a rule starts, a rule of a lower rank is ready. -/
theorem ready (h : HelpfulRules size rank n) (rule : Rule) (lower : rule.rank < rank)
    (noCall : rule.isCall = false) :
    Ready size {rule.opening} rule.follow (Grammar.apply true n rule) :=
  ⟨(h.here rule lower).helpful noCall, h.closes rule⟩

/-- Behind a word, a rule is ready. -/
theorem readyLater (h : HelpfulRules size rank n) (rule : Rule) (noCall : rule.isCall = false) :
    Ready (size - 1) {rule.opening} rule.follow (Grammar.apply true n rule) :=
  ⟨(h.later rule).helpful noCall, h.closes rule⟩

/-- Rules run alike wherever the same words are ahead. -/
theorem nearby (_ : HelpfulRules size rank n) (rule : Rule) :
    nearby.rel Eq (Grammar.apply true n rule) (Grammar.apply true n rule) :=
  apply_nearby (Nat.le_refl n) rule

/-- Behind a word, an expression is ready. -/
theorem expression (h : HelpfulRules size rank n) {kind : TokenKind}
    (ends : endsExpression kind = true) :
    Ready (size - 1) {.identifier} {kind} (Grammar.apply true n .expression) :=
  (h.readyLater .expression rfl).mono subset_rfl (singleton_subset_runEnds ends 0)

/-- Behind a word, a query is ready. -/
theorem query (h : HelpfulRules size rank n) :
    Ready (size - 1) {.keyword .SELECT} {.rightParen} (Grammar.apply true n .query) :=
  (h.readyLater .query rfl).mono subset_rfl (Set.singleton_subset_iff.mpr List.mem_cons_self)

end HelpfulRules

/-- Whatever follows, a value is yielded at once. -/
theorem Ready.done {α : Type} (a : α) : Ready size Set.univ F (Pure.pure a) :=
  .pure (Set.subset_univ F) a

/-! ### Names -/

/-- The last one of some names, qualified by the others. -/
def qualifiedBy (parts : List Identifier) : QualifiedName :=
  ⟨parts.dropLast, parts.getLast?.getD (.regular "")⟩

/-- There is a last one of the names with points between them. -/
theorem qualifiedName_run {words : List Word} {session : Session} {good : Word → Prop}
    (faces : session.Faces words .adql good) :
    qualifiedName session = (qualifiedBy <$> oneOrMore .dot identifier) session := by
  have some : Ensures (oneOrMore .dot identifier) words (fun parts _ => parts ≠ []) good :=
    .oneOrMore_ne_nil .dot nofun moving.rel_identifier (.of_nearby nearby.rel_identifier) words
  rw [map_eq_pure_bind]
  change EStateM.bind _ _ session = EStateM.bind _ _ session
  unfold EStateM.bind
  cases run : oneOrMore .dot identifier session with
  | error failure after => rfl
  | ok parts after =>
    obtain ⟨_, _, nonempty⟩ := some session after parts faces run
    have found := List.getLast?_eq_some_getLast nonempty
    dsimp only
    rw [found, qualifiedBy, found]
    rfl

/-- Names with points between them. -/
theorem ready_qualifiedName (noDot : .dot ∉ F) : Ready size {.identifier} F qualifiedName := by
  have parts : Ready size {.identifier} F (qualifiedBy <$> oneOrMore .dot identifier) :=
    .map (.oneOrMore rfl nearby.rel_identifier moving.rel_identifier .identifier noDot)
  refine ⟨parts.toHelpful.congr ?_ fun _ _ _ faces => qualifiedName_run faces, ?_⟩
  · exact (beyond.rel_qualifiedName beyond.rel_identifier).2
  · obtain ⟨words, name, spelled, closing⟩ := parts.closes
    refine ⟨words, name, spelled, fun behind follows => (closing behind follows).imp id fun reads => ?_⟩
    exact fun good session faces => qualifiedName_run faces ▸ reads good session faces

/-- A name with or without `AS`. -/
theorem ready_aliasName : Ready size {.identifier} F aliasName :=
  .eat_missed rfl .identifier .identifier nofun

/-- Names in parentheses. -/
theorem ready_nameList : Ready size {.leftParen} F nameList :=
  .inParentheses (.oneOrMore rfl nearby.rel_identifier moving.rel_identifier .identifier nofun)

/-! ### Queries in parentheses -/

section

variable (h : HelpfulRules size rank n)

include h

/-- A query in parentheses. -/
theorem ready_parenthesizedQuery : Ready size {.leftParen} F (parenthesizedQuery (Grammar.apply true n)) :=
  .inParentheses h.query

/-- An expression in parentheses. -/
theorem ready_parenthesizedExpression :
    Ready size {.leftParen} F (parenthesizedExpression (Grammar.apply true n)) :=
  .map (.inParentheses (h.expression rfl))

/-- A query that stands for a value. -/
theorem ready_scalarSubquery : Ready size {.leftParen} F (scalarSubquery (Grammar.apply true n)) :=
  .map (ready_parenthesizedQuery h)

/-- A test whether a query has rows. -/
theorem ready_existence : Ready size {.keyword .EXISTS} F (existence (Grammar.apply true n)) :=
  .expectWord_bind (.map ((ready_parenthesizedQuery h).of_le (Nat.sub_le size 1)))

/-- Expressions with commas between them. -/
theorem ready_expressions (ends : F ⊆ runEnds 0) (noComma : .comma ∉ F) :
    Ready (size - 1) {.identifier} F (expressions (Grammar.apply true n)) :=
  .oneOrMore rfl (h.nearby .expression) (apply_moving true n .expression)
    ((h.readyLater .expression rfl).mono subset_rfl ends) noComma

end

end

end Adql
