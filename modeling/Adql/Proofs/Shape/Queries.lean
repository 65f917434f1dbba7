import Adql.Proofs.RoundTrip.Tables
import Adql.Proofs.Shape.Expressions

/-!
# Rules for queries yield well-formed trees

The bodies of the rules for queries grant well-formed trees if the rules that they apply do.  Then
all rules grant them, by induction on how deep the rules may nest (`grants_rules`).

A clause that failed and was skipped leaves a hole.  This happens in the outermost query only, so
what a place says about holes (`Place.isWhole`) is carried through the rules for queries and no
farther.
-/

namespace Adql

open Adql.Parser Adql.Grammar
open TokenCursor (Ahead)

/-! ### Runs of set operators -/

/-- The body is what a run of set operators at a level is: no operator is next that binds at the
bound or tighter. -/
structure QueryBody.IsRun (table : PrecedenceTable) (whole : Bool) (level bound : Nat)
    (body : QueryBody)
    (cursor : TokenCursor) : Prop where
  /-- The body is well formed. -/
  wellFormed : body.WellFormed table whole
  /-- It may stand where the run stands. -/
  tight : body.looserThan level = false
  /-- The set operator that is next is looser than the bound. -/
  ends : ∀ op, setOperatorOf? cursor.current.kind = some op → op.level < bound

/-- What may stand on a level may stand on a looser one. -/
theorem QueryBody.looserThan_mono {body : QueryBody} {level looser : Nat} (le : looser ≤ level)
    (h : body.looserThan level = false) : body.looserThan looser = false := by
  cases body with
  | setOperation op all left right =>
    exact decide_eq_false fun less => of_decide_eq_false h (Nat.lt_of_lt_of_le less le)
  | _ => rfl

/-- There are two levels of set operators. -/
theorem SetOperator.level_lt (op : SetOperator) : op.level < SetOperator.intersect.level + 1 := by
  cases op <;> decide

/-! ### Queries that are put together -/

/-- A specification stays well formed when it gets sort keys and an offset. -/
theorem QuerySpec.WellFormed.sorted {table : PrecedenceTable} {whole : Bool} {spec : QuerySpec}
    (h : spec.WellFormed table whole) {keys : List SortKey}
    (hkeys : ∀ key ∈ keys, key.expr.WellFormed table) (offset : Option UInt64) :
    QuerySpec.WellFormed table whole { spec with keys, offset } := by
  cases h with
  | mk items tables some condition groups having _ =>
    exact .mk items tables some condition groups having hkeys

/-- A query that is put together is well formed if its parts are. -/
theorem Query.WellFormed.assemble {table : PrecedenceTable} {whole : Bool}
    {commonTables : List CommonTable}
    (hnamed : ∀ named ∈ commonTables, named.query.WellFormed table true)
    {body : QueryBody} (hbody : body.WellFormed table whole) {keys : List SortKey}
    (hkeys : ∀ key ∈ keys, key.expr.WellFormed table) (offset : Option UInt64) :
    (assembleQuery commonTables body keys offset).WellFormed table whole := by
  cases body with
  | spec spec =>
    cases hbody with
    | spec hspec _ _ => exact .spec hnamed (hspec.sorted hkeys offset)
  | setOperation op all left right => exact .compound hnamed hbody rfl hkeys
  | nested query => exact .compound hnamed hbody rfl hkeys

section

variable {place : Place} {now : TokenCursor → Prop} {pre : Session → Prop} {count : Nat}

/-! ### Names and words -/

/-- A name given to an item is a name. -/
theorem aliasName_grants : Grants place (On now) aliasName fun _ _ => True :=
  .eat_cases identifier_grants identifier_grants

/-- Of names in parentheses, there is at least one. -/
theorem nameList_grants : Grants place (On now) nameList fun names _ => names ≠ [] :=
  .inParentheses identifiers_grants

/-- The names of the columns of a named query may be missing. -/
theorem columnNames_grants : Grants place (On now) columnNames fun _ _ => True :=
  .eat_cases (identifiers_grants.bind_value fun _ _ => .expect_then (.pure fun _ _ => trivial))
    (.pure fun _ _ => trivial)

/-- The words in front of a select list may be missing. -/
theorem distinctness_grants : Grants place (On now) distinctness fun _ _ => True :=
  .eat_cases (.pure fun _ _ => trivial)
    (.eat_cases (.pure fun _ _ => trivial) (.pure fun _ _ => trivial))

/-- The set operator is the one of the current token. -/
theorem setOperator_grants :
    Grants place (On now) setOperator? fun op? session =>
      now session.cursor ∧ setOperatorOf? session.cursor.current.kind = op? := by
  refine .check_bind (.pure fun session there => ⟨there.1, there.2 ▸ rfl⟩) ?_
  refine .mono_pre (.check_bind (.pure fun session there => ⟨there.1.1, there.2 ▸ rfl⟩) ?_)
    fun _ there => there.1
  refine .mono_pre (.check_bind (.pure fun session there => ⟨there.1.1.1, there.2 ▸ rfl⟩) ?_)
    fun _ there => there.1
  refine .pure fun session ⟨⟨⟨⟨there, union⟩, except⟩, intersect⟩, _⟩ => ⟨there, ?_⟩
  cases found : setOperatorOf? session.cursor.current.kind with
  | none => rfl
  | some op =>
    have kind := setOperatorOf?_eq_some.mp found
    cases op with
    | union => exact absurd kind union
    | except => exact absurd kind except
    | intersect => exact absurd kind intersect

/-- An outer join is no product.  Where there is none, one was looked for. -/
theorem outerJoin_grants :
    Grants place (On now) outerJoin? fun kind? session =>
      (∀ kind ∈ kind?, kind ≠ .cross) ∧ (kind? = none → session.Noted) := by
  have found (kind : JoinKind) (outer : kind ≠ .cross) :
      Grants place (On Anywhere) (pure (some kind)) fun kind? session =>
        (∀ kind ∈ kind?, kind ≠ .cross) ∧ (kind? = none → session.Noted) := by
    refine .pure fun _ _ => ⟨?_, nofun⟩
    rintro _ ⟨⟩
    exact outer
  refine .eat_bind (found .left nofun).anywhere (.mono_pre ?_ fun _ there => there.1)
  refine .eat_bind (found .right nofun).anywhere (.mono_pre ?_ fun _ there => there.1)
  refine .eat_bind (found .full nofun).anywhere (.pure fun _ there => ⟨nofun, fun _ => there.2⟩)

/-- A join that is no product is none. -/
theorem matchedJoin_grants (natural : Bool) :
    Grants place (On now) (matchedJoin? natural) fun kind? _ => ∀ kind ∈ kind?, kind ≠ .cross := by
  have found (kind : JoinKind) (outer : kind ≠ .cross) :
      Grants place (On Anywhere) (do expectWord .JOIN; pure (some kind)) fun kind? _ =>
        ∀ kind ∈ kind?, kind ≠ .cross := by
    refine .expectWord_then (.pure fun _ _ => ?_)
    rintro _ ⟨⟩
    exact outer
  refine .eat_cases (.pure fun _ _ => ?_) (.eat_cases (found .inner nofun) ?_)
  · rintro _ ⟨⟩
    exact nofun
  refine (outerJoin_grants).bind fun kind? => ?_
  cases kind? with
  | none => exact .ite (fun _ => .fail fun _ there => there.2 rfl) fun _ => .pure fun _ _ => nofun
  | some kind =>
    refine .assuming (kind ≠ .cross) (fun _ _ there => there.1 kind rfl) fun outer => ?_
    exact Grants.anywhere (.eat_cases (found kind outer) (found kind outer))

/-- A natural join is no product. -/
theorem joinKind_grants (natural : Bool) :
    Grants place (On now) (joinKind? natural) fun kind? _ =>
      ∀ kind ∈ kind?, natural = true → kind ≠ .cross := by
  have matched : Grants place (On Anywhere) (matchedJoin? natural) fun kind? _ =>
      ∀ kind ∈ kind?, natural = true → kind ≠ .cross :=
    (matchedJoin_grants natural).mono fun _ _ there kind found _ => there kind found
  rw [joinKind?_eq]
  cases natural with
  | true => exact matched.anywhere
  | false => exact .eat_cases (.expectWord_then (.pure fun _ _ _ _ => nofun)) matched

/-- The qualifier of a wildcard has a name. -/
theorem qualifiedWildcard_grants :
    Grants place (On now) qualifiedWildcard fun item _ => item.WellFormed place.table := by
  refine identifier_grants.bind fun first => ?_
  have qualifier : Grants place (On Anywhere) (iterate wildcardStep (#[first], false))
      fun state _ =>
      state.1.toList ≠ [] := by
    refine .iterate_held (fun state some => ?_)
      (List.cons_ne_nil _ _)
    refine .expect_then (.eat_cases (.pure fun _ _ => some) ?_)
    exact identifier_grants.bind fun name => .pure fun _ _ => by simp [Step.state]
  exact qualifier.anywhere.bind fun state => .pure fun _ some => .wildcard some

end

section

variable {apply : (rule : Rule) → Parser rule.Result} (h : GrantsRules apply) {place : Place}
  (opened : 0 < place.queries) {now : TokenCursor → Prop} {pre : Session → Prop} {count level : Nat}

include h opened

/-! ### Queries -/

/-- Sort keys are well formed. -/
theorem sortKeys_grants :
    Grants place (On now) (sortKeys apply) fun keys _ =>
      ∀ key ∈ keys, key.expr.WellFormed place.table :=
  .expectWord_then
    ((Grants.oneOrMore (h.rule opened .sortKey rfl rfl)).mono fun _ _ there => there.2)

/-- A query is well formed. -/
theorem query_grants :
    Grants place (On now) (query apply) fun query _ =>
      query.WellFormed place.table place.isWhole := by
  have named : Grants place (On now) (afterWord .WITH [] (oneOrMore .comma (apply .commonTable)))
      fun commonTables _ => ∀ named ∈ commonTables, named.query.WellFormed place.table true :=
    .afterWord
      ((Grants.oneOrMore (h.rule opened .commonTable rfl rfl)).mono fun _ _ there => there.2)
      fun _ _ => nofun
  refine named.bind_value fun commonTables hnamed => ?_
  refine (h.rule opened .queryBody rfl rfl).bind_value fun body hbody => ?_
  have sorted : Grants place (On Anywhere) (afterWord .ORDER [] (clause [] (sortKeys apply)))
      fun keys _ => ∀ key ∈ keys, key.expr.WellFormed place.table :=
    .afterWord (.orRecover (sortKeys_grants h opened) fun _ => nofun) fun _ _ => nofun
  refine sorted.bind_value fun keys hkeys => ?_
  have skipped :
      Grants place (On Anywhere) (afterWord .OFFSET none (clause none (some <$> rowCount)))
      fun _ _ => True :=
    .afterWord (.orRecover (.map rowCount_grants) fun _ => trivial) fun _ _ => trivial
  exact skipped.bind fun offset => .pure fun _ _ => .assemble hnamed hbody hkeys offset

/-- A named query is well formed. -/
theorem commonTable_grants :
    Grants place (On now) (commonTable apply) fun named _ =>
      named.query.WellFormed place.table true := by
  refine identifier_grants.bind_value fun name _ =>
    columnNames_grants.bind_value fun columns _ => ?_
  refine .expectWord_then ((parenthesizedQuery_grants h opened).bind fun query => ?_)
  exact .pure fun _ wellFormed => wellFormed

/-- A sort key is well formed. -/
theorem sortKey_grants :
    Grants place (On now) (sortKey apply) fun key _ => key.expr.WellFormed place.table := by
  refine (expression_grants h opened).bind_value fun expr wellFormed => ?_
  refine .eat_cases (.pure fun _ _ => wellFormed) ?_
  exact .eat_cases (.pure fun _ _ => wellFormed) (.pure fun _ _ => wellFormed)

/-! ### Set operations -/

omit h opened in
/-- Behind one more set operator a run may go on; without one, it has come to its end. -/
theorem setStep_grants {operand : Parser QueryBody}
    (hoperand : Grants place (On Anywhere) operand fun body session =>
      body.IsRun place.table place.isWhole (level + 1) (level + 1) session.cursor)
    (left : QueryBody) :
    Grants place
      (On fun cursor => left.IsRun place.table place.isWhole level (level + 1) cursor ∧
        Ahead (count + 1) cursor)
      (setStep operand level left)
      (Stepped (QueryBody.IsRun place.table place.isWhole level (level + 1))
        (QueryBody.IsRun place.table place.isWhole level level) count) := by
  refine setOperator_grants.bind fun op? => ?_
  cases op? with
  | none =>
    refine .pure fun session there => ⟨there.1.1.wellFormed, there.1.1.tight, fun op found => ?_⟩
    rw [there.2] at found
    cases found
  | some op =>
    refine .ite (fun looser => .pure fun session there => ?_) fun tight => ?_
    · refine ⟨there.1.1.wellFormed, there.1.1.tight, fun other found => ?_⟩
      rw [there.2] at found
      cases found
      exact looser
    · refine .assuming (left.WellFormed place.table place.isWhole ∧ left.looserThan level = false ∧
        op.level = level) (fun session _ there => ?_) fun ⟨hleft, bare, same⟩ => ?_
      · have bounded := there.1.1.ends op there.2
        exact ⟨there.1.1.wellFormed, there.1.1.tight, by omega⟩
      subst same
      refine .mono_pre (.advance_more (setOperatorOf? ·.current.kind = some op) ?_ fun _ => ?_)
        fun session there => ⟨there.2, there.1.2⟩
      · intro cursor found ends
        rw [ends] at found
        cases found
      · refine .eat_either fun all => hoperand.keepsAhead.bind fun right =>
          .pure fun session there => ?_
        refine ⟨⟨.setOperation hleft bare there.1.wellFormed there.1.tight, ?_, there.1.ends⟩,
          there.2⟩
        exact decide_eq_false (Nat.lt_irrefl _)

omit h opened in
/-- Set operations are a run that has come to its end. -/
theorem setOperations_grants {operand : Parser QueryBody}
    (hoperand : Grants place (On Anywhere) operand fun body session =>
      body.IsRun place.table place.isWhole (level + 1) (level + 1) session.cursor) :
    Grants place (On Anywhere) (setOperations operand level) fun body session =>
      body.IsRun place.table place.isWhole level level session.cursor := by
  refine hoperand.bind fun first => .mono_pre (.iterate _ _ fun count left =>
    setStep_grants hoperand left) fun session there => ?_
  exact ⟨there.wellFormed, QueryBody.looserThan_mono (Nat.le_succ _) there.tight, there.ends⟩

/-- A query body is well formed: no set operator is looser than all of them. -/
theorem queryBody_grants :
    Grants place (On Anywhere) (queryBody apply) fun body _ =>
      body.WellFormed place.table place.isWhole := by
  have term : Grants place (On Anywhere) (apply .queryTerm) fun body session =>
      body.IsRun place.table place.isWhole (SetOperator.intersect.level + 1)
        (SetOperator.intersect.level + 1) session.cursor :=
    (h.rule opened .queryTerm rfl rfl).mono fun body _ there =>
      ⟨there.1, there.2 _, fun op _ => op.level_lt⟩
  exact (setOperations_grants (setOperations_grants term)).mono fun _ _ there => there.wellFormed

/-- An operand of a set operator is well formed, and it is no set operation. -/
theorem queryTerm_grants :
    Grants place (On now) (queryTerm apply) fun body _ =>
      body.WellFormed place.table place.isWhole ∧ ∀ level, body.looserThan level = false := by
  refine .check_bind ?_ ?_
  · refine (h.rule opened .querySpec rfl rfl).bind fun spec => .pure fun _ there => ?_
    exact ⟨.spec there.1 there.2.1 there.2.2, fun _ => rfl⟩
  · refine .mono_pre (.eat_bind ?_ (.fail fun _ there => there.2)) fun _ there => there.1
    refine (h.query opened).bind_value fun query wellFormed => .expect_then (.pure fun _ _ => ?_)
    exact ⟨.nested wellFormed, fun _ => rfl⟩

/-! ### Specifications -/

/-- A condition is well formed, if it is there. -/
theorem condition_grants (word : Keyword) :
    Grants place (On now) (condition apply word) fun condition _ =>
      ∀ expr ∈ condition, expr.WellFormed place.table := by
  refine .afterWord (.orRecover (.map ((expression_grants h opened).mono ?_)) fun _ => nofun)
    fun _ _ => nofun
  rintro expr _ wellFormed _ ⟨⟩
  exact wellFormed

/-- The items of a `FROM` clause are well formed.  Where nothing is left out, there is at least one.
-/
theorem fromClause_grants :
    Grants place (On now) (clause [] (fromClause apply)) fun tables _ =>
      (place.isWhole = true → tables ≠ []) ∧ ∀ table ∈ tables, table.WellFormed place.table := by
  refine .orRecover
    (.expectWord_then ((Grants.oneOrMore (h.rule opened .tableReference rfl rfl)).mono ?_)) ?_
  · exact fun _ _ there => ⟨fun _ => there.1, there.2⟩
  · exact fun hole => ⟨fun whole => absurd (hole.symm.trans whole) nofun, nofun⟩

/-- Grouping expressions are well formed. -/
theorem groups_grants :
    Grants place (On now) (afterWord .GROUP [] (clause [] (groups apply))) fun groups _ =>
      ∀ group ∈ groups, group.WellFormed place.table :=
  .afterWord (.orRecover (.expectWord_then ((expressions_grants h opened).mono
    fun _ _ there => there.2)) fun _ => nofun) fun _ _ => nofun

/-- A specification is well formed, and it has no sort keys and no offset yet. -/
theorem querySpec_grants :
    Grants place (On now) (querySpec apply) fun spec _ =>
      spec.WellFormed place.table place.isWhole ∧ spec.keys = [] ∧ spec.offset = none := by
  refine .expectWord_then (distinctness_grants.bind_value fun distinct _ => ?_)
  have top : Grants place (On Anywhere) (afterWord .TOP none (some <$> rowCount)) fun _ _ => True :=
    .afterWord (.map rowCount_grants) fun _ _ => trivial
  refine top.bind_value fun top _ => ?_
  refine (h.rule opened .selectList rfl rfl).bind_value fun items hitems => ?_
  refine (fromClause_grants h opened).bind_value fun tables htables => ?_
  refine (condition_grants h opened .WHERE).bind_value fun rows hrows => ?_
  refine (groups_grants h opened).bind_value fun groups hgroups => ?_
  refine (condition_grants h opened .HAVING).bind_value fun having hhaving => .pure fun _ _ => ?_
  refine ⟨.mk hitems.1 htables.2 (fun whole => ⟨hitems.2 whole, htables.1 whole⟩)
    hrows hgroups hhaving
    nofun, rfl, rfl⟩

/-- A select list is everything, or its items are well formed. -/
theorem selectList_grants :
    Grants place (On now) (selectList apply) fun items _ =>
      (items ≠ [.unnamed (.wildcard [])] → ∀ item ∈ items, item.WellFormed place.table) ∧
        (place.isWhole = true → items ≠ []) := by
  refine .eat_cases (.pure fun _ _ => ⟨fun other => absurd rfl other, fun _ => nofun⟩) ?_
  exact (Grants.someItems (h.rule opened .selectItem rfl rfl)).mono fun _ _ there =>
    ⟨fun _ => there.2, there.1⟩

/-- An expression with an optional name is a well-formed item. -/
theorem derivedColumn_grants :
    Grants place (On now) (derivedColumn apply) fun item _ => item.WellFormed place.table := by
  refine (expression_grants h opened).bind_value fun expr wellFormed => ?_
  have named : Grants place (On Anywhere) (optional (apply .aliasName)) fun _ _ => True :=
    .optional (h.rule opened .aliasName rfl rfl) trivial
  exact named.bind fun _ => .pure fun _ _ => .value wellFormed

/-- An item of a select list is well formed. -/
theorem selectItem_grants :
    Grants place (On now) (selectItem apply) fun item _ => item.WellFormed place.table := by
  refine .currentKind_bind fun _ => .nextKind_bind fun _ =>
    Grants.anywhere (.ite (fun _ => ?_) fun _ => ?_)
  · exact .firstOf (h.rule opened .qualifiedWildcard rfl rfl) (h.returns .qualifiedWildcard rfl)
      (h.rule opened .derivedColumn rfl rfl)
  · exact derivedColumn_grants h opened

/-! ### Tables -/

/-- What matches the rows of a join is well formed, and it is nothing only if the join is free of
it. -/
theorem joinConstraint_grants (free : Bool) :
    Grants place (On now) (joinConstraint apply free) fun constraint _ =>
      constraint.WellFormed place.table ∧ (constraint = .none ↔ free = true) := by
  refine .ite (fun isFree => .pure fun _ _ => ⟨.none, iff_of_true rfl isFree⟩) fun bound => ?_
  refine .eat_bind ?_
    (.mono_pre (.eat_bind ?_ (.fail fun _ there => there.2)) fun _ there => there.1)
  · refine (expression_grants h opened).bind fun condition => .pure fun _ wellFormed => ?_
    exact ⟨.on wellFormed, iff_of_false nofun bound⟩
  · exact nameList_grants.bind fun columns =>
      .pure fun _ some => ⟨.using some, iff_of_false nofun bound⟩

/-- One more join is well formed. -/
theorem joinStep_grants (left : TableRef) (hleft : left.WellFormed place.table) :
    Grants place (On now) (joinStep apply left) fun next _ =>
      next.state.WellFormed place.table := by
  have joined (natural : Bool) : Grants place (On Anywhere) (joinedTable apply left natural)
      fun next _ => next.state.WellFormed place.table := by
    refine (joinKind_grants natural).bind_value fun kind? product => ?_
    cases kind? with
    | none => exact .pure fun _ _ => hleft
    | some kind =>
      refine (h.rule opened .tablePrimary rfl rfl).bind_value fun right hright => ?_
      refine (joinConstraint_grants h opened _).bind fun constraint => .pure fun _ there => ?_
      refine .join hleft hright.1 hright.2 (product kind rfl) ?_ there.1
      rw [there.2, Bool.or_eq_true, decide_eq_true_iff]
  rw [joinStep_eq]
  exact .eat_cases (joined true) (joined false)

/-- A table with any number of joins is well formed. -/
theorem tableReference_grants :
    Grants place (On now) (tableReference apply) fun table _ => table.WellFormed place.table :=
  (h.rule opened .tablePrimary rfl rfl).bind_value fun _ there =>
    .iterate_held (fun left hleft => joinStep_grants h opened left hleft) there.1

/-- A query that stands for a table is well formed, and it is no join. -/
theorem derivedTable_grants :
    Grants place (On now) (derivedTable apply) fun table _ =>
      table.WellFormed place.table ∧ table.isJoin = false := by
  refine (parenthesizedQuery_grants h opened).bind_value fun query wellFormed => ?_
  exact aliasName_grants.bind fun name => .pure fun _ _ => ⟨.subquery wellFormed, rfl⟩

/-- Joins in parentheses are well formed, and they are no join themselves. -/
theorem nestedTable_grants :
    Grants place (On now) (nestedTable apply) fun table _ =>
      table.WellFormed place.table ∧ table.isJoin = false :=
  .map ((Grants.inParentheses (h.rule opened .tableReference rfl rfl)).mono fun _ _ wellFormed =>
    ⟨.nested wellFormed, rfl⟩)

/-- A table is well formed, and it is no join. -/
theorem tablePrimary_grants :
    Grants place (On now) (tablePrimary apply) fun table _ =>
      table.WellFormed place.table ∧ table.isJoin = false := by
  refine .check_bind ?_ ?_
  · exact .firstOf (h.rule opened .derivedTable rfl rfl) (h.returns .derivedTable rfl)
      (h.rule opened .nestedTable rfl rfl)
  · refine .mono_pre (qualifiedName_grants.bind_value fun name _ => ?_) fun _ there => there.1
    have named : Grants place (On Anywhere) (optional (apply .aliasName)) fun _ _ => True :=
      .optional (h.rule opened .aliasName rfl rfl) trivial
    exact named.bind fun _ => .pure fun _ _ => ⟨.table, rfl⟩

/-! ### All rules -/

/-- The body of a rule grants well-formed values, if the rules that it applies do. -/
theorem body_grants (lookahead : Bool) (rule : Rule) :
    Grants place (On rule.Needs) (body lookahead apply rule) fun value session =>
      rule.Shapes place value session.cursor := by
  cases rule with
  | query => exact query_grants h opened
  | queryBody => exact queryBody_grants h opened
  | queryTerm => exact queryTerm_grants h opened
  | querySpec => exact querySpec_grants h opened
  | selectList => exact selectList_grants h opened
  | selectItem => exact selectItem_grants h opened
  | qualifiedWildcard => exact qualifiedWildcard_grants
  | derivedColumn => exact derivedColumn_grants h opened
  | aliasName => exact aliasName_grants
  | tableReference => exact tableReference_grants h opened
  | tablePrimary => exact tablePrimary_grants h opened
  | derivedTable => exact derivedTable_grants h opened
  | nestedTable => exact nestedTable_grants h opened
  | commonTable => exact commonTable_grants h opened
  | sortKey => exact sortKey_grants h opened
  | expression => exact (run_grants h opened 0).mono fun _ _ last => last.wellFormed
  | operators level => exact operators_grants h opened lookahead level
  | parenthesized => exact parenthesizedExpression_grants h opened
  | parenthesizedTrial => exact h.rule opened .parenthesized rfl rfl
  | scalarSubquery => exact scalarSubquery_grants h opened
  | subqueryTrial => exact h.rule opened .scalarSubquery rfl rfl
  | «exists» => exact existence_grants h opened
  | aggregate => exact aggregate_grants h opened
  | functionCall => exact functionCall_grants h opened
  | geometry function => exact geometryCall_grants h opened function
  | case => exact caseDistinction_grants h opened
  | cast => exact conversion_grants h opened
  | dataType => exact dataType_grants

end

/-- All rules grant well-formed values, however deep they may nest. -/
theorem grants_rules (lookahead : Bool) (allowance : Nat) :
    GrantsRules (apply lookahead allowance) := by
  induction allowance with
  | zero =>
    exact ⟨fun place rule opened => .countRule_bind .refuseDepth,
      fun rule named before after failure run => position_apply_error named run⟩
  | succ allowance ih =>
    exact ⟨fun place rule opened =>
      .countRule_bind (.nested (body_grants ih opened lookahead rule)),
      fun rule named before after failure run => position_apply_error named run⟩

end Adql
