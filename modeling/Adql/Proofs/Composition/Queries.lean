import Adql.Proofs.Composition.Expressions

/-!
# Queries carry over to longer texts

Whatever the rules for queries do in front of words, they also do if the words are put in
parentheses, if the rules that they apply do so.  By induction on how deep rules may nest, this holds
of all rules (`apply_carries`).  So a query that was read up to the end of its words is read up to the
closing parenthesis if the words are put in parentheses (`Reads.enclosed`).
-/

namespace Adql

open Adql.Parser Adql.Grammar

variable {behind : List Word} {opened : Int} {α : Type}

/-! ### Numbers of rows and names -/

section

variable (closes : EndsArgument behind)

include closes

/-- Numbers of rows carry over. -/
theorem carried_rowCount : Carried behind 0 0 rowCount := by
  intro words
  refine (Carries.checkPlain closes (by decide)).bind ?_
  rintro there _ _ ⟨rfl, rfl, ahead⟩
  cases there with
  | false => exact .fail
  | true =>
    simp only [↓reduceIte]
    have number := ahead.mp rfl
    refine .current_bind closes (fun token => rfl) ?_ ?_
    · rintro rfl
      cases number
    · split
      · refine .advancePlain_bind (number ▸ by decide) fun word rest split => ?_
        subst split
        exact .pure ⟨rfl, Nat.le_succ _⟩
      · exact .fail

/-- Names given to tables or items carry over. -/
theorem carried_aliasName : Carried behind opened opened aliasName :=
  .eatWord_bind closes fun _ => .identifier closes

/-- Lists of names carry over. -/
theorem carried_nameList : Carried behind 0 0 nameList :=
  .inParentheses closes (.listed (fun _ => by decide) (.identifier closes))

/-- The names of columns carry over. -/
theorem carried_columnNames : Carried behind 0 0 columnNames :=
  .eatOpening_bind closes ((Carried.listed (fun _ => by decide) (.identifier closes)).bind
    fun _ => .closing_bind (.pure _)) (.pure [])

/-- The words for distinct rows carry over. -/
theorem carried_distinctness : Carried behind 0 0 distinctness :=
  .eatWord_bind closes fun _ => .ite _ (.pure true) (.eatWord_bind closes fun _ => .pure false)

/-- The qualifiers of wildcards carry over. -/
theorem carried_wildcardStep : CarriedStep behind 0 0 wildcardStep := by
  intro state words
  refine .expectPlain_bind closes (by decide) fun word inner split => ?_
  subst split
  refine .eatPlain_bind closes (by decide) (fun star rest split => ?_) ?_
  · subst split
    exact .pure ⟨rfl, by simp; omega⟩
  · refine ((Carried.identifier closes) inner).bind ?_
    rintro name _ rest ⟨rfl, fewer⟩
    exact .pure ⟨rfl, Nat.lt_succ_of_le fewer⟩

/-- Wildcards with qualifiers carry over. -/
theorem carried_qualifiedWildcard : Carried behind 0 0 qualifiedWildcard :=
  (Carried.identifier closes).bind fun first =>
    (Carried.iterate (carried_wildcardStep closes) (#[first], false)).bind fun _ => .pure _

omit closes in
/-- Lists of items carry over, unless a comma is what ends them; there is no recovery in them. -/
theorem carried_someItems (closes : firstKind behind = .rightParen) {item : Parser α}
    (h : Carried behind 0 0 item) : Carried behind 0 0 (someItems item) :=
  .canRecover_bind (.listed (fun comma => nomatch closes.symm.trans comma) h)

/-! ### Set operations -/

/-- Set operators with their right operands carry over. -/
theorem carried_setStep {operand : Parser QueryBody} (h : Carried behind 0 0 operand)
    (level : Nat) : CarriedStep behind 0 0 (setStep operand level) := by
  intro left words
  have same : setOperatorOf? (firstKind (words ++ behind)) = setOperatorOf? (firstKind words) := by
    rcases Carries.firstKind_append words behind with ahead | ⟨rfl, ahead⟩
    · rw [ahead]
    · rw [ahead]
      exact closes.same rfl rfl
  refine .look_bind (reads_setOperator words) (fun _ => ⟨reads_setOperator _, .setOperator (by simp)⟩)
    (fun _ => by rw [same]) ?_
  cases hop : setOperatorOf? (firstKind words) with
  | none => exact .pure ⟨rfl, Nat.le_refl _⟩
  | some op =>
    refine .ite (fun _ => .pure ⟨rfl, Nat.le_refl _⟩) fun _ => ?_
    have plain : (firstKind words).IsPlain := setOperatorOf?_eq_some.mp hop ▸ .keyword _
    refine .advancePlain_bind plain fun word rest split => ?_
    subst split
    refine ((Carried.eatWord closes .ALL) rest).bind ?_
    rintro all _ middle ⟨rfl, fewer⟩
    refine (h middle).bind ?_
    rintro right _ rest' ⟨rfl, fewer'⟩
    exact .pure ⟨rfl, Nat.lt_succ_of_le (Nat.le_trans fewer' fewer)⟩

/-- Operands joined by set operators carry over. -/
theorem carried_setOperations {operand : Parser QueryBody} (h : Carried behind 0 0 operand)
    (level : Nat) : Carried behind 0 0 (setOperations operand level) :=
  h.bind fun first => .iterate (carried_setStep closes h level) first

/-! ### Joins -/

/-- What comes of looking for a join: a join takes words away. -/
def LeavesJoin (words : List Word) (kind? : Option JoinKind) (opened : Int) (rest : List Word) :
    Prop :=
  Leaves 0 words kind? opened rest ∧ (kind? ≠ none → rest.length < words.length)

/-- The words of outer joins carry over. -/
theorem carried_outerJoin (words : List Word) :
    Carries behind 0 outerJoin? outerJoin? words (LeavesJoin words) := by
  have found (kind : JoinKind) (word : Word) (rest : List Word) (split : words = word :: rest) :
      Carries behind 0 (pure (some kind)) (pure (some kind)) rest (LeavesJoin words) := by
    subst split
    exact .pure ⟨⟨rfl, Nat.le_succ _⟩, fun _ => Nat.lt_succ_self _⟩
  refine .eatPlain_bind closes (.keyword _) (found .left) ?_
  refine .eatPlain_bind closes (.keyword _) (found .right) ?_
  refine .eatPlain_bind closes (.keyword _) (found .full) ?_
  exact .pure ⟨⟨rfl, Nat.le_refl _⟩, fun h => absurd rfl h⟩

/-- The words of joins carry over. -/
theorem carried_joinKind (natural : Bool) (words : List Word) :
    Carries behind 0 (joinKind? natural) (joinKind? natural) words (LeavesJoin words) := by
  have joined (kind : JoinKind) {rest : List Word} (fewer : rest.length < words.length) :
      Carries behind 0 (expectWord .JOIN >>= fun _ => pure (some kind))
        (expectWord .JOIN >>= fun _ => pure (some kind)) rest (LeavesJoin words) := by
    refine ((Carried.expectWord closes .JOIN) rest).bind ?_
    rintro _ _ rest' ⟨rfl, fewer'⟩
    have shorter := Nat.lt_of_le_of_lt fewer' fewer
    exact .pure ⟨⟨rfl, Nat.le_of_lt shorter⟩, fun _ => shorter⟩
  have shorter {word : Word} {rest : List Word} (split : words = word :: rest) :
      rest.length < words.length := split ▸ Nat.lt_succ_self _
  have matched : Carries behind 0 (matchedJoin? natural) (matchedJoin? natural) words
      (LeavesJoin words) := by
    refine .eatPlain_bind closes (.keyword _) (fun _ _ split => .pure ?_) ?_
    · exact ⟨⟨rfl, Nat.le_of_lt (shorter split)⟩, fun _ => shorter split⟩
    refine .eatPlain_bind closes (.keyword _) (fun _ _ split => joined _ (shorter split)) ?_
    refine (carried_outerJoin closes words).bind ?_
    rintro kind? _ rest ⟨⟨rfl, fewer⟩, ahead⟩
    cases kind? with
    | none => exact .ite (fun _ => .fail) fun _ => .pure ⟨⟨rfl, fewer⟩, fun h => absurd rfl h⟩
    | some kind =>
      refine ((Carried.eatWord closes .OUTER) rest).bind ?_
      rintro _ _ rest' ⟨rfl, fewer'⟩
      exact joined kind (Nat.lt_of_le_of_lt fewer' (ahead nofun))
  rw [joinKind?_eq]
  cases natural with
  | true => simpa using matched
  | false => exact .eatPlain_bind closes (.keyword _) (fun _ _ split => joined _ (shorter split)) matched

end

namespace CarriesRules

variable {apply : (rule : Rule) → Parser rule.Result} (rules : CarriesRules behind apply)

include rules

/-- Expressions carry over. -/
theorem expression : Carried behind 0 0 (apply .expression) :=
  rules.carried .expression fun _ => trivial

/-- Lists with commas between the items carry over: what ends them is no comma. -/
theorem listed {item : Parser α} (h : Carried behind 0 0 item) :
    Carried behind 0 0 (oneOrMore .comma item) :=
  .listed (fun comma => nomatch rules.closes.symm.trans comma) h

/-! ### Queries -/

/-- Sort keys behind `ORDER` carry over. -/
theorem sortKeys : Carried behind 0 0 (sortKeys apply) :=
  .expectWord_bind rules.ends
    (rules.listed (rules.carried .sortKey fun _ => trivial))

/-- Queries carry over. -/
theorem query : Carried behind 0 0 (query apply) := by
  have tables : Carried behind 0 0 (oneOrMore .comma (apply .commonTable)) :=
    rules.listed (rules.carried .commonTable fun _ => trivial)
  refine (Carried.afterWord rules.ends _ _ tables).bind fun _ => ?_
  refine (rules.carried .queryBody fun _ => trivial).bind fun _ => ?_
  refine (Carried.afterWord rules.ends _ _ (.orRecover _ _ rules.sortKeys)).bind fun _ => ?_
  exact (Carried.afterWord rules.ends _ _ (.orRecover _ _
    ((carried_rowCount rules.ends).map some))).bind fun _ => .pure _

/-- Named queries carry over. -/
theorem commonTable : Carried behind 0 0 (commonTable apply) :=
  (Carried.identifier rules.ends).bind fun _ =>
    (carried_columnNames rules.ends).bind fun _ => .expectWord_bind rules.ends <|
      rules.onExpressions.parenthesizedQuery.bind fun _ => .pure _

/-- Sort keys carry over. -/
theorem sortKey : Carried behind 0 0 (sortKey apply) :=
  rules.expression.bind fun _ => .eatWord_bind rules.ends fun _ =>
    .ite _ (.pure _) (.eatWord_bind rules.ends fun _ => .pure _)

/-- Query bodies carry over. -/
theorem queryBody : Carried behind 0 0 (queryBody apply) :=
  carried_setOperations rules.ends
    (carried_setOperations rules.ends (rules.carried .queryTerm fun _ => trivial) _) _

/-- Operands of set operators carry over. -/
theorem queryTerm : Carried behind 0 0 (queryTerm apply) := by
  refine (Carried.checkWord rules.ends _).bind fun _ => .ite _ ?_ ?_
  · exact (rules.carried .querySpec fun _ => trivial).bind fun _ => .pure _
  · refine .eatOpening_bind rules.ends ?_ .fail
    exact (rules.carried .query fun _ => trivial).inside.bind fun _ =>
      .closing_bind (.pure _)

/-! ### Specifications -/

/-- `FROM` clauses carry over. -/
theorem fromClause : Carried behind 0 0 (fromClause apply) :=
  .expectWord_bind rules.ends
    (rules.listed (rules.carried .tableReference fun _ => trivial))

/-- Grouping expressions carry over. -/
theorem groups : Carried behind 0 0 (groups apply) :=
  .expectWord_bind rules.ends (rules.listed rules.expression)

/-- Conditions carry over. -/
theorem condition (keyword : Keyword) : Carried behind 0 0 (condition apply keyword) :=
  .afterWord rules.ends _ _
    (.orRecover _ _ (rules.expression.map some))

/-- Specifications carry over. -/
theorem querySpec : Carried behind 0 0 (querySpec apply) := by
  refine .expectWord_bind rules.ends ((carried_distinctness rules.ends).bind fun _ => ?_)
  refine (Carried.afterWord rules.ends _ _ ((carried_rowCount rules.ends).map some)).bind
    fun _ => (rules.carried .selectList fun _ => trivial).bind fun _ => ?_
  refine (Carried.orRecover _ _ rules.fromClause).bind fun _ => (rules.condition _).bind fun _ => ?_
  refine (Carried.afterWord rules.ends _ _ (.orRecover _ _ rules.groups)).bind fun _ => ?_
  exact (rules.condition _).bind fun _ => .pure _

/-- Select lists carry over. -/
theorem selectList : Carried behind 0 0 (selectList apply) :=
  .eat_bind rules.ends (by decide) fun _ => .ite _ (.pure _)
    (carried_someItems rules.closes (rules.carried .selectItem fun _ => trivial))

/-- Optional names carry over. -/
theorem optionalAlias : Carried behind 0 0 (optional (apply .aliasName)) :=
  .optional (fun words => rules.settles .aliasName words rfl)
    (rules.carried .aliasName fun _ => trivial)

/-- Items with optional names carry over. -/
theorem derivedColumn : Carried behind 0 0 (derivedColumn apply) :=
  rules.expression.bind fun _ =>
    rules.optionalAlias.bind fun _ => .pure _

/-- Items of select lists carry over. -/
theorem selectItem : Carried behind 0 0 (selectItem apply) := by
  intro words
  refine .currentKind_bind rules.ends rfl rfl ?_
  have column : Carries behind 0 (Grammar.derivedColumn apply) (Grammar.derivedColumn apply) words
      (Leaves 0 words) := rules.derivedColumn words
  cases words with
  | nil => exact .look_bind (.nextKind _) (fun _ => .of_look (.nextKind _) fun _ => rfl) (fun _ => rfl) column
  | cons word rest =>
    refine .nextKind_bind rules.ends rfl rfl (.ite (fun _ => ?_) fun _ => column)
    exact .firstOf (fun words => rules.settles .qualifiedWildcard words rfl)
      (rules.carries .qualifiedWildcard _ trivial) (rules.carries .derivedColumn _ trivial)

/-! ### Tables -/

/-- What matches the rows of joins carries over. -/
theorem joinConstraint (free : Bool) : Carried behind 0 0 (joinConstraint apply free) := by
  refine .ite _ (.pure _) (.eatWord_bind rules.ends fun _ => .ite _ ?_ ?_)
  · exact rules.expression.bind fun _ => .pure _
  · refine .eatWord_bind rules.ends fun _ => .ite _ ?_ .fail
    exact (carried_nameList rules.ends).bind fun _ => .pure _

/-- Joins carry over. -/
theorem joinStep : CarriedStep behind 0 0 (joinStep apply) := by
  intro left words
  have joined (natural : Bool) (words : List Word) : Carries behind 0 (joinedTable apply left natural)
      (joinedTable apply left natural) words (LeavesStep 0 0 words) := by
    refine (carried_joinKind rules.ends natural words).bind ?_
    rintro kind? _ rest ⟨⟨rfl, fewer⟩, ahead⟩
    cases kind? with
    | none => exact .pure ⟨rfl, fewer⟩
    | some kind =>
      refine (rules.carries .tablePrimary rest trivial).bind ?_
      rintro right _ middle ⟨rfl, fewer'⟩
      refine (rules.joinConstraint _ middle).bind ?_
      rintro constraint _ rest' ⟨rfl, fewer''⟩
      exact .pure ⟨rfl, Nat.lt_of_le_of_lt (Nat.le_trans fewer'' fewer') (ahead nofun)⟩
  rw [joinStep_eq]
  refine .eatPlain_bind rules.ends (.keyword _) (fun word rest split => ?_) (joined false words)
  subst split
  refine (joined true rest).mono fun next _ rest' leaves => ?_
  cases next with
  | more _ => exact ⟨leaves.1, Nat.lt_succ_of_lt leaves.2⟩
  | done _ => exact ⟨leaves.1, Nat.le_succ_of_le leaves.2⟩

/-- Tables with joins carry over. -/
theorem tableReference : Carried behind 0 0 (tableReference apply) :=
  (rules.carried .tablePrimary fun _ => trivial).bind fun first => .iterate rules.joinStep first

/-- Tables carry over. -/
theorem tablePrimary : Carried behind 0 0 (tablePrimary apply) := by
  refine (Carried.check (by decide) fun h => absurd h rules.ends.ne_opening).bind fun _ => .ite _ ?_ ?_
  · exact .firstOf (fun words => rules.settles .derivedTable words rfl)
      (rules.carried .derivedTable fun _ => trivial) (rules.carried .nestedTable fun _ => trivial)
  · exact (carried_qualifiedName rules.ends).bind fun _ => rules.optionalAlias.bind fun _ => .pure _

/-- Queries that stand for tables carry over. -/
theorem derivedTable : Carried behind 0 0 (derivedTable apply) :=
  rules.onExpressions.parenthesizedQuery.bind fun _ => (carried_aliasName rules.ends).bind fun _ => .pure _

/-- Joins in parentheses carry over. -/
theorem nestedTable : Carried behind 0 0 (nestedTable apply) :=
  .map _ (.inParentheses rules.ends (rules.carried .tableReference fun _ => trivial).inside)

/-! ### All rules -/

/-- The bodies of the rules carry over. -/
theorem body (rule : Rule) (words : List Word) (applies : rule.applies words) :
    Carries behind 0 (body true apply rule) (Grammar.body true apply rule) words
      (Leaves 0 words) := by
  cases rule with
  | query => exact rules.query words
  | queryBody => exact rules.queryBody words
  | queryTerm => exact rules.queryTerm words
  | querySpec => exact rules.querySpec words
  | selectList => exact rules.selectList words
  | selectItem => exact rules.selectItem words
  | qualifiedWildcard => exact carried_qualifiedWildcard rules.ends words
  | derivedColumn => exact rules.derivedColumn words
  | aliasName => exact carried_aliasName rules.ends words
  | tableReference => exact rules.tableReference words
  | tablePrimary => exact rules.tablePrimary words
  | derivedTable => exact rules.derivedTable words
  | nestedTable => exact rules.nestedTable words
  | commonTable => exact rules.commonTable words
  | sortKey => exact rules.sortKey words
  | _ => exact rules.onExpressions.body _ words rfl applies

end CarriesRules

/-- Whatever the rules do in front of words carries over to the words with others behind them that
start with a closing parenthesis. -/
theorem apply_carries (closes : firstKind behind = .rightParen) (allowance : Nat) :
    CarriesRules behind (apply true allowance) := by
  induction allowance with
  | zero =>
    refine ⟨closes, fun rule words _ => .aborts (.apply_zero rule words) fun _ => .apply_zero rule _,
      fun rule words named => ?_⟩
    exact Stalls.fails named
  | succ allowance ih =>
    refine ⟨closes, fun rule words applies => .apply (ih.body rule words applies),
      fun rule words named => ?_⟩
    exact Stalls.fails named

/-- A query that is read up to the end of the words is read up to a closing parenthesis behind
them. -/
theorem Reads.enclosed {allowance : Nat} {words : List Word} {query : Query}
    (h : Reads (Grammar.apply true allowance .query) words query [])
    (closes : firstKind behind = .rightParen) :
    Reads (Grammar.apply true allowance .query) (words ++ behind) query behind := by
  have carries := (apply_carries closes allowance).carries .query words trivial
  have balanced := carries.balance_of_reads h
  rw [balance_nil] at balanced
  exact (carries.readsWithin h (by omega)).reads

end Adql
