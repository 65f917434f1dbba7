import Adql.Proofs.RoundTrip.Queries
import Adql.Proofs.Shape.Contracts
import Adql.Proofs.Shape.Tree

/-!
# Rules for expressions yield well-formed trees

`GrantsRules apply` says that parsers of all rules grant what `Rule.Shapes` says of their values.
From it follows, body by body, that the bodies of the rules for expressions do so as well.

A run of operators needs more than its tree: no operator that belongs to it may be next
(`Expr.IsRun`). So whatever the next operator is, it binds no tighter than what the run was the
right operand of.
-/

namespace Adql

open Adql.Parser Adql.Grammar
open TokenCursor (Behind Ahead)

/-! ### Runs of operators -/

section

variable {table : PrecedenceTable} {level : Nat} {expr left right : Expr} {cursor : TokenCursor}

/-- The level of the operator that is next, if there is one. -/
def TokenCursor.nextLevel? (table : PrecedenceTable) (cursor : TokenCursor) : Option Nat :=
  if startsPredicate cursor.current.kind (cursor.peek 1).kind then some table.predicateLevel
  else (table.ofToken? cursor.current.kind).map (·.2.level)

/-- The expression is what a run of operators at a level is when it has come to its end. -/
structure Expr.IsRun (table : PrecedenceTable) (level : Nat) (expr : Expr) (cursor : TokenCursor) :
    Prop where
  /-- The expression is well formed. -/
  wellFormed : expr.WellFormed table
  /-- It may stand where the run stands. -/
  bindsAt : expr.BindsAt table level
  /-- No operator of the run is next. -/
  ends : ∀ next ∈ cursor.nextLevel? table, next < level

/-- The expression is what a run of operators at a level is while it may go on. -/
structure Expr.Leads (table : PrecedenceTable) (level : Nat) (expr : Expr) (cursor : TokenCursor) :
    Prop where
  /-- The expression is well formed. -/
  wellFormed : expr.WellFormed table
  /-- It may stand where the run stands. -/
  bindsAt : expr.BindsAt table level
  /-- It may be the left operand of whatever operator is next. -/
  standsLeft : ∀ next ∈ cursor.nextLevel? table, expr.StandsLeft table next

namespace Expr

/-- What may stand on a level may stand on a looser one. -/
theorem BindsAt.mono {looser : Nat} (h : expr.BindsAt table level) (le : looser ≤ level) :
    expr.BindsAt table looser := by
  cases expr with
  | binary | isNull | between | inList | inQuery | like => exact Nat.le_trans le h
  | _ => trivial

/-- What may stand on the left of a predicate binds at the level of predicates: so do predicates. -/
theorem StandsLeft.bindsAt (h : expr.StandsLeft table table.predicateLevel) :
    expr.BindsAt table table.predicateLevel := by
  rcases h with binds | closed
  · exact binds
  · cases expr with
    | isNull | inList | inQuery => exact Nat.le_refl _
    | _ => cases closed

/-- What may stand anywhere is a run of operators that may go on. -/
theorem Leads.of_operand (wellFormed : expr.WellFormed table)
    (binds : ∀ level, expr.BindsAt table level) : expr.Leads table level cursor :=
  ⟨wellFormed, binds level, fun next _ => .inl (binds next)⟩

/-- A run that has come to its end may be followed by operators only that are looser. -/
theorem Leads.isRun (h : expr.Leads table level cursor)
    (ends : ∀ next ∈ cursor.nextLevel? table, next < level) : expr.IsRun table level cursor :=
  ⟨h.wellFormed, h.bindsAt, ends⟩

/-- A run of operators goes on behind the right operand of a binary operator. -/
theorem Leads.binary {kind : TokenKind} {op : BinaryOp} {binding : Binding}
    (found : table.ofToken? kind = some (op, binding)) (le : level ≤ binding.level)
    (hleft : left.WellFormed table) (stands : left.StandsLeft table binding.level)
    (hright : right.IsRun table binding.rightOperandLevel cursor) :
    (Expr.binary left op right).Leads table level cursor := by
  have bound : table.binding? op = some binding := by
    obtain ⟨op', _, found⟩ := Option.bind_eq_some_iff.mp found
    obtain ⟨binding', bound, same⟩ := Option.bind_eq_some_iff.mp found
    obtain ⟨rfl, rfl⟩ := Prod.mk.inj (Option.some.inj same)
    exact bound
  have own : table.binaryLevel op = binding.level := by simp [PrecedenceTable.binaryLevel, bound]
  have others : table.rightLevel op = binding.rightOperandLevel := by
    simp [PrecedenceTable.rightLevel, bound]
  refine ⟨.binary hleft (own ▸ stands) hright.wellFormed (others ▸ hright.bindsAt), ?_, ?_⟩
  · rw [BindsAt, own]
    exact le
  · intro next there
    refine .inl ?_
    have before := hright.ends next there
    have bounded : binding.rightOperandLevel ≤ binding.level + 1 := by
      unfold Binding.rightOperandLevel
      split <;> omega
    rw [BindsAt, own]
    omega

/-- A run of operators goes on behind a predicate that ends with an operand. -/
theorem Leads.of_isRun (wellFormed : expr.WellFormed table)
    (binds : ∀ level ≤ table.predicateLevel, expr.BindsAt table level)
    (last : right.IsRun table table.predicate.rightOperandLevel cursor) :
    expr.Leads table table.predicateLevel cursor :=
  ⟨wellFormed, binds _ (Nat.le_refl _), fun next there =>
    .inl (binds next (Nat.le_of_lt_succ (last.ends next there)))⟩

/-- A run of operators goes on behind a predicate that ends without an operand. -/
theorem Leads.of_closed (wellFormed : expr.WellFormed table)
    (closed : expr.isClosedPredicate = true) :
    expr.Leads table table.predicateLevel cursor :=
  ⟨wellFormed, StandsLeft.bindsAt (.inr closed), fun _ _ => .inr closed⟩

/-- A run that may go on on a level may go on on a looser one. -/
theorem Leads.mono {looser : Nat} (h : expr.Leads table level cursor) (le : looser ≤ level) :
    expr.Leads table looser cursor :=
  ⟨h.wellFormed, h.bindsAt.mono le, h.standsLeft⟩

end Expr

end

section

variable (apply : (rule : Rule) → Parser rule.Result)

/-- One more predicate of a run. -/
def predicateStep (table : PrecedenceTable) (minLevel : Nat) (left : Expr) :
    Parser (Step Expr) := do
  if table.predicateLevel < minLevel then
    pure (.done left)
  else
    .more <$> predicateTail apply left table.predicate.rightOperandLevel

/-- One more binary operator of a run, told by the kind of its token. -/
def binaryStep (table : PrecedenceTable) (minLevel : Nat) (left : Expr) (kind : TokenKind) :
    Parser (Step Expr) := do
  match table.ofToken? kind with
  | none =>
    noteAll (continuations table minLevel)
    pure (.done left)
  | some (op, binding) =>
    if binding.level < minLevel then
      pure (.done left)
    else
      let _ ← advance
      let right ← apply (.operators binding.rightOperandLevel)
      pure (.more (.binary left op right))

/-- One more operator of a run is a predicate, or a binary operator. -/
theorem operatorStep_eq (minLevel : Nat) (left : Expr) :
    operatorStep apply minLevel left = (do
      let table ← precedence
      if startsPredicate (← currentKind) (← nextKind) then predicateStep apply table minLevel left
      else binaryStep apply table minLevel left (← currentKind)) :=
  rfl

end

/-! ### Rules -/

namespace Rule

/-- What a rule relies on: aggregate functions are told by their reserved words. -/
def Needs : Rule → TokenCursor → Prop
  | .aggregate => fun cursor => cursor.current.keyword? ≠ none
  | _ => Anywhere

/-- What a rule grants of its value, and of the place behind it. -/
def Shapes (place : Place) : (rule : Rule) → rule.Result → TokenCursor → Prop
  | .query => fun query _ => query.WellFormed place.table place.isWhole
  | .queryBody => fun body _ => body.WellFormed place.table place.isWhole
  | .queryTerm => fun body _ =>
    body.WellFormed place.table place.isWhole ∧ ∀ level, body.looserThan level = false
  | .querySpec => fun spec _ =>
    spec.WellFormed place.table place.isWhole ∧ spec.keys = [] ∧ spec.offset = none
  | .selectList => fun items _ =>
    (items ≠ [.unnamed (.wildcard [])] → ∀ item ∈ items, item.WellFormed place.table) ∧
      (place.isWhole = true → items ≠ [])
  | .selectItem | .qualifiedWildcard | .derivedColumn => fun item _ => item.WellFormed place.table
  | .aliasName => fun _ _ => True
  | .tableReference => fun table _ => table.WellFormed place.table
  | .tablePrimary | .derivedTable | .nestedTable => fun table _ =>
    table.WellFormed place.table ∧ table.isJoin = false
  | .commonTable => fun named _ => named.query.WellFormed place.table true
  | .sortKey => fun key _ => key.expr.WellFormed place.table
  | .expression => fun expr _ => expr.WellFormed place.table
  | .operators level => fun expr cursor => expr.IsRun place.table level cursor
  | .parenthesized | .parenthesizedTrial | .scalarSubquery | .subqueryTrial | .exists | .aggregate
  | .functionCall | .geometry _ | .case | .cast => fun expr _ =>
    expr.WellFormed place.table ∧ ∀ level, expr.BindsAt place.table level
  | .dataType => fun _ _ => True

end Rule

/-- Parsers of all rules grant that their values are well formed. -/
structure GrantsRules (apply : (rule : Rule) → Parser rule.Result) : Prop where
  /-- The values are well formed, in queries at least. -/
  grants : ∀ place rule, 0 < (place.inside rule).queries →
    Grants place (On rule.Needs) (apply rule) fun value session =>
      rule.Shapes (place.inside rule) value session.cursor
  /-- A rule with a name that fails leaves the cursor where the rule began. -/
  returns : ∀ rule, rule.name?.isSome = true → Returns (apply rule)

section

variable {place : Place} {pre : Session → Prop} {now : TokenCursor → Prop}

/-! ### Names, numbers and types -/

/-- A name is a name. -/
theorem identifier_grants : Grants place (On now) identifier fun _ _ => True := by
  refine .check_bind ?_ ?_
  · exact .advance_then fun _ => .pure fun _ _ => trivial
  · refine .mono_pre (.check_bind ?_ ?_) fun _ h => h.1
    · exact .advance_then fun _ => .pure fun _ _ => trivial
    · exact .fail fun _ h => h.2

/-- Of names with separators between them, there is at least one. -/
theorem identifiers_grants {separator : TokenKind} :
    Grants place pre (oneOrMore separator identifier) fun names _ => names ≠ [] := by
  have name : Grants place (On Anywhere) identifier fun name _ => Anywhere name := identifier_grants
  exact (Grants.oneOrMore name).mono fun _ _ there => there.1

/-- A qualified name has a last name. -/
theorem qualifiedName_grants : Grants place (On now) qualifiedName fun _ _ => True := by
  refine identifiers_grants.bind_value fun parts some => ?_
  cases last : parts.getLast? with
  | none => exact absurd (List.getLast?_eq_none_iff.mp last) some
  | some name => exact .pure fun _ _ => trivial

/-- The digits of a number of rows have a value. -/
theorem rowCount_grants : Grants place (On now) rowCount fun _ _ => True := by
  refine .check_bind (.current_bind fun token => ?_) (.fail fun _ h => h.2)
  refine .assuming (token.rowCount? ≠ none) (fun session at' h => ?_) fun valued => ?_
  · obtain ⟨⟨_, integer⟩, rfl⟩ := h
    obtain ⟨count, read⟩ := at'.genuine.current.counts integer
    rw [Session.current, read]
    exact Option.some_ne_none _
  · cases read : token.rowCount? with
    | none => exact absurd read valued
    | some count =>
      exact Grants.anywhere (.advance_then fun _ => .pure fun _ _ => trivial)

/-- The length of a type is a number, if it is there. -/
theorem typeLength_grants : Grants place (On now) typeLength fun _ _ => True := by
  refine .eat_cases (.check_bind (.current_bind fun token => ?_) (.fail fun _ h => h.2))
    (.pure fun _ _ => trivial)
  cases token.length? with
  | none => exact Grants.anywhere (.failExpecting nofun)
  | some length =>
    exact Grants.anywhere (.advance_then fun _ => .expect_then (.pure fun _ _ => trivial))

/-- A type is one of those that can be converted to. -/
theorem dataType_grants : Grants place (On now) dataType fun _ _ => True := by
  refine .current_bind fun token => Grants.anywhere ?_
  have measured (type : Option UInt32 → DataType) :
      Grants place (On Anywhere) (do let _ ← advance; pure (type (← typeLength))) fun _ _ => True :=
    .advance_then fun _ => typeLength_grants.bind fun _ => .pure fun _ _ => trivial
  split
  · exact .advance_then fun _ => .expectWord_then (.pure fun _ _ => trivial)
  · exact measured .char
  · exact measured .varchar
  · cases simpleType? token with
    | none => exact .failExpecting nofun
    | some type => exact .advance_then fun _ => .pure fun _ _ => trivial

end

section

variable {apply : (rule : Rule) → Parser rule.Result} (h : GrantsRules apply) {place : Place}
  (opened : 0 < place.queries) {now : TokenCursor → Prop} {pre : Session → Prop} {count level : Nat}
  {operand left : Expr}

include h opened

/-! ### Rules that are applied -/

/-- The rules grant what they do, whatever is known of the current token. -/
theorem GrantsRules.rule (rule : Rule) (calm : rule.opensQuery = false)
    (needs : rule.Needs = fun _ => True) :
    Grants place pre (apply rule) fun value session => rule.Shapes place value session.cursor := by
  have same : place.inside rule = place := by simp [Place.inside, calm]
  have granted := h.grants place rule (same.symm ▸ opened)
  rw [same] at granted
  exact granted.mono_pre fun _ _ => needs ▸ trivial

/-- A query inside another one is whole. -/
theorem GrantsRules.query :
    Grants place pre (apply .query) fun query _ => query.WellFormed place.table true := by
  have whole : (place.inside .query).isWhole = true := by
    simp [Place.isWhole, Place.inside, Rule.opensQuery, Nat.ne_of_gt opened]
  refine (h.grants place .query (Nat.succ_pos _)).mono_pre (fun _ _ => trivial) |>.mono ?_
  intro query session wellFormed
  exact whole ▸ wellFormed

/-- An expression is well formed. -/
theorem expression_grants :
    Grants place pre (apply .expression) fun expr _ => expr.WellFormed place.table :=
  h.rule opened .expression rfl rfl

/-- A run of operators is one. -/
theorem run_grants (level : Nat) :
    Grants place pre (apply (.operators level)) fun expr session =>
      expr.IsRun place.table level session.cursor :=
  h.rule opened (.operators level) rfl rfl

/-- A query in parentheses is well formed. -/
theorem parenthesizedQuery_grants :
    Grants place (On now) (parenthesizedQuery apply) fun query _ =>
      query.WellFormed place.table true :=
  .inParentheses (h.query opened)

/-- Expressions with commas between them are well formed, and there is at least one. -/
theorem expressions_grants :
    Grants place pre (expressions apply) fun exprs _ =>
      exprs ≠ [] ∧ ∀ expr ∈ exprs, expr.WellFormed place.table :=
  .oneOrMore (expression_grants h opened)

/-! ### Predicates -/

section

variable (hoperand : operand.WellFormed place.table)
  (binds : operand.BindsAt place.table place.table.predicateLevel)

include hoperand binds

/-- What follows the word `BETWEEN` makes a run of operators that may go on. -/
theorem betweenTail_grants (negated : Bool) :
    Grants place (On now)
      (betweenTail apply operand negated place.table.predicate.rightOperandLevel)
      fun expr session => expr.Leads place.table place.table.predicateLevel session.cursor := by
  refine (run_grants h opened _).bind fun low => ?_
  refine .assuming (low.WellFormed place.table ∧
    low.BindsAt place.table place.table.predicate.rightOperandLevel)
    (fun _ _ there => ⟨there.wellFormed, there.bindsAt⟩) fun hlow => ?_
  refine Grants.expectWord_then ((run_grants h opened _).bind fun high => ?_)
  refine .pure fun session last => .of_isRun ?_ (fun _ le => le) last
  exact .between hoperand binds hlow.1 hlow.2 last.wellFormed last.bindsAt

/-- What follows the word `IN` makes a run of operators that may go on. -/
theorem inTail_grants (negated : Bool) :
    Grants place (On now) (inTail apply operand negated)
      fun expr session => expr.Leads place.table place.table.predicateLevel session.cursor := by
  refine .expect_then (.currentKind_bind fun kind => .ite (fun _ => ?_) fun _ => ?_)
  · refine (h.query opened).bind_value fun query wellFormed => .expect_then (.pure fun _ _ => ?_)
    exact .of_closed (.inQuery hoperand binds wellFormed) rfl
  · refine (expressions_grants h opened).bind_value fun items hitems =>
      .expect_then (.pure fun _ _ => ?_)
    exact .of_closed (.inList hoperand binds hitems.1 hitems.2) rfl

/-- What follows the word `LIKE` or `ILIKE` makes a run of operators that may go on. -/
theorem likeTail_grants (negated caseInsensitive : Bool) :
    Grants place (On now)
      (likeTail apply operand negated caseInsensitive place.table.predicate.rightOperandLevel)
      fun expr session => expr.Leads place.table place.table.predicateLevel session.cursor := by
  refine (run_grants h opened _).bind fun pattern => ?_
  refine .assuming (pattern.WellFormed place.table ∧
    pattern.BindsAt place.table place.table.predicate.rightOperandLevel)
    (fun _ _ there => ⟨there.wellFormed, there.bindsAt⟩) fun hpattern => ?_
  have escape : Grants place
      (On fun cursor => pattern.IsRun place.table place.table.predicate.rightOperandLevel cursor)
      (afterWord .ESCAPE none (some <$> apply (.operators place.table.predicate.rightOperandLevel)))
      fun escape session =>
        (∀ text ∈ escape, text.WellFormed place.table ∧
          text.BindsAt place.table place.table.predicate.rightOperandLevel) ∧
        ∃ last : Expr,
          last.IsRun place.table place.table.predicate.rightOperandLevel session.cursor := by
    refine .afterWord (.map ((run_grants h opened _).mono fun text session last => ?_))
      fun session last => ⟨nofun, pattern, last⟩
    refine ⟨?_, text, last⟩
    rintro _ ⟨⟩
    exact ⟨last.wellFormed, last.bindsAt⟩
  refine escape.bind fun escape => .pure fun session ⟨hescape, _, last⟩ => ?_
  refine .of_isRun ?_ (fun _ le => le) last
  exact .like hoperand binds hpattern.1 hpattern.2 (fun text there => (hescape text there).1)
    fun text there => (hescape text there).2

/-- The postfix part of a predicate makes a run of operators that may go on, and it has a token. -/
theorem predicateTail_grants :
    Grants place (On (Ahead (count + 1)))
      (predicateTail apply operand place.table.predicate.rightOperandLevel)
      fun expr session => expr.Leads place.table place.table.predicateLevel session.cursor ∧
        Ahead count session.cursor := by
  rw [predicateTail_eq]
  refine .eat_more nofun (.keepsAhead ?_) (Grants.mono_pre ?_ fun _ there => there.1)
  · have test (negated : Bool) : Grants place (On Anywhere)
        (do expectWord .NULL; pure (Expr.isNull operand negated)) fun expr session =>
          expr.Leads place.table place.table.predicateLevel session.cursor :=
      .expectWord_then (.pure fun _ _ => .of_closed (.isNull hoperand binds) rfl)
    exact .eat_cases (test true) (test false)
  refine .eat_either fun negated => ?_
  refine .eat_more nofun (betweenTail_grants h opened hoperand binds negated).keepsAhead
    (Grants.mono_pre ?_ fun _ there => there.1)
  refine .eat_more nofun (inTail_grants h opened hoperand binds negated).keepsAhead
    (Grants.mono_pre ?_ fun _ there => there.1)
  refine .eat_more nofun (likeTail_grants h opened hoperand binds negated false).keepsAhead
    (Grants.mono_pre ?_ fun _ there => there.1)
  exact .eat_more nofun (likeTail_grants h opened hoperand binds negated true).keepsAhead
    (.fail fun _ there => there.2)

end

/-! ### Calls -/

/-- The argument of an aggregate function is an expression, or everything is counted. -/
theorem aggregateArgument_grants (word : Keyword) :
    Grants place (On now) (aggregateArgument apply word) fun argument _ =>
      argument.1.WellFormed place.table ∨ word = .COUNT ∧ argument = (.wildcard [], false) := by
  have argument (distinct : Bool) : Grants place (On Anywhere)
      (do pure (← apply .expression, distinct)) fun argument _ =>
        argument.1.WellFormed place.table ∨ word = .COUNT ∧ argument = (.wildcard [], false) :=
    (expression_grants h opened).bind fun _ => .pure fun _ wellFormed => .inl wellFormed
  have once : Grants place (On Anywhere) (aggregatedExpression apply) fun argument _ =>
      argument.1.WellFormed place.table ∨ word = .COUNT ∧ argument = (.wildcard [], false) :=
    .eat_cases (argument true) (.eat_cases (argument false) (argument false))
  rw [aggregateArgument_eq]
  by_cases counts : word = .COUNT
  · rw [if_pos counts]
    exact .eat_cases (.pure fun _ _ => .inr ⟨counts, rfl⟩) once
  · rw [if_neg counts]
    exact once.anywhere

/-- A call of an aggregate function is well formed, and it may stand anywhere. -/
theorem aggregate_grants :
    Grants place (On Rule.aggregate.Needs) (aggregate apply) fun expr _ =>
      expr.WellFormed place.table ∧ ∀ level, expr.BindsAt place.table level := by
  refine .current_bind fun token => ?_
  refine .assuming (token.keyword? ≠ none) (fun _ _ there => there.2 ▸ there.1) fun reserved => ?_
  cases found : token.keyword? with
  | none => exact absurd found reserved
  | some word =>
    refine Grants.anywhere (.advance_then fun _ => .expect_then ?_)
    refine (aggregateArgument_grants h opened word).bind_value fun argument hargument => ?_
    refine .expect_then (.pure fun _ _ => ⟨?_, fun _ => trivial⟩)
    rcases hargument with wellFormed | ⟨rfl, rfl⟩
    · exact .call (List.forall_mem_singleton.mpr wellFormed)
    · exact .countAll

/-- The arguments of a call are well formed. -/
theorem callArguments_grants :
    Grants place (On now) (callArguments apply) fun arguments _ =>
      ∀ argument ∈ arguments, argument.WellFormed place.table := by
  refine .check_bind (.pure fun _ _ => nofun) ?_
  exact (expressions_grants h opened).mono fun _ _ there => there.2

/-- A call of any other function is well formed, and it may stand anywhere. -/
theorem functionCall_grants :
    Grants place (On now) (functionCall apply) fun expr _ =>
      expr.WellFormed place.table ∧ ∀ level, expr.BindsAt place.table level := by
  refine (identifier_grants).bind_value fun name _ => .expect_then ?_
  refine (callArguments_grants h opened).bind_value fun arguments harguments => ?_
  exact .expect_then (.pure fun _ _ => ⟨.call harguments, fun _ => trivial⟩)

/-- One more argument of a geometry function is well formed.  When the last one is there, the
function admits their number. -/
theorem geometryStep_grants (function : Geometry) (arguments : Array Expr)
    (held : function.acceptsMore arguments.size = true ∧
      ∀ argument ∈ arguments.toList, argument.WellFormed place.table) :
    Grants place (On (Ahead (count + 1))) (geometryStep apply function arguments)
      (Stepped
        (fun arguments _ => function.acceptsMore arguments.size = true ∧
          ∀ argument ∈ arguments.toList, argument.WellFormed place.table)
        (fun arguments _ => function.Admits arguments.toList.length ∧
          ∀ argument ∈ arguments.toList, argument.WellFormed place.table) count) := by
  refine .bind_ahead (expression_grants h opened) fun argument wellFormed => ?_
  have all := Grants.mem_push held.2 wellFormed
  have size : (arguments.push argument).size = arguments.size + 1 := Array.size_push ..
  have last (enough : function.needsMore (arguments.push argument).size = false) :
      function.Admits (arguments.push argument).toList.length := by
    rw [Array.length_toList, size]
    exact Geometry.admits_of_acceptsMore held.1 (size ▸ enough)
  refine .ite (fun needed => ?_) fun enough => ?_
  · exact .expect_more nofun
      (.pure fun _ less => ⟨⟨Geometry.acceptsMore_of_needsMore needed, all⟩, less⟩)
  by_cases more : function.acceptsMore (arguments.push argument).size = true
  · rw [if_pos more]
    refine .eat_more nofun (.pure fun _ less => ⟨⟨more, all⟩, less⟩) (Grants.anywhere ?_)
    exact .expect_then (.pure fun _ _ => ⟨last (Bool.eq_false_iff.mpr enough), all⟩)
  · rw [if_neg more]
    exact .expect_then (.pure fun _ _ => ⟨last (Bool.eq_false_iff.mpr enough), all⟩)

/-- A call of a geometry function is well formed, and it may stand anywhere. -/
theorem geometryCall_grants (function : Geometry) :
    Grants place (On now) (geometryCall apply function) fun expr _ =>
      expr.WellFormed place.table ∧ ∀ level, expr.BindsAt place.table level := by
  refine .advance_then fun _ => .expect_then ?_
  refine .bind_value
    (.iterate_reads (fun count => geometryStep_grants h opened function) ⟨?_, nofun⟩)
    fun arguments harguments => ?_
  · cases function <;> rfl
  · exact .pure fun _ _ => ⟨.geometry harguments.2 harguments.1, fun _ => trivial⟩

/-! ### Case distinctions and conversions -/

/-- One more branch of a case distinction is well formed. -/
theorem branchStep_grants (branches : Array Branch)
    (held : ∀ branch ∈ branches.toList,
      branch.condition.WellFormed place.table ∧ branch.result.WellFormed place.table) :
    Grants place (On (Ahead (count + 1))) (branchStep apply branches)
      (Stepped
        (fun branches _ => ∀ branch ∈ branches.toList,
          branch.condition.WellFormed place.table ∧ branch.result.WellFormed place.table)
        (fun branches _ => branches.toList ≠ [] ∧ ∀ branch ∈ branches.toList,
          branch.condition.WellFormed place.table ∧ branch.result.WellFormed place.table)
        count) := by
  refine .bind_ahead (expression_grants h opened) fun condition hcondition => .expectWord_more ?_
  refine .bind_ahead (expression_grants h opened) fun result hresult => ?_
  have held : ∀ branch ∈ (branches.push ⟨condition, result⟩).toList,
      branch.condition.WellFormed place.table ∧ branch.result.WellFormed place.table :=
    Grants.mem_push held ⟨hcondition, hresult⟩
  have some : (branches.push ⟨condition, result⟩).toList ≠ [] := by simp
  refine .mono_pre (.eat_either fun there => ?_) fun _ less => less
  cases there with
  | true => exact .pure fun _ less => ⟨held, less⟩
  | false => exact .pure fun _ _ => ⟨some, held⟩

/-- A case distinction is well formed, and it may stand anywhere. -/
theorem caseDistinction_grants :
    Grants place (On now) (caseDistinction apply) fun expr _ =>
      expr.WellFormed place.table ∧ ∀ level, expr.BindsAt place.table level := by
  have subject : Grants place (On Anywhere) (caseSubject apply) fun subject _ =>
      ∀ value ∈ subject, value.WellFormed place.table := by
    refine .check_bind (.pure fun _ _ => nofun) (.map ?_)
    refine (expression_grants h opened).mono fun value _ wellFormed => ?_
    rintro _ ⟨⟩
    exact wellFormed
  refine .expectWord_then (subject.bind_value fun subject hsubject => .expectWord_then ?_)
  refine .bind_value (.iterate_reads (fun count => branchStep_grants h opened) nofun)
    fun branches hbranches => ?_
  have otherwise : Grants place (On Anywhere) (afterWord .ELSE none (some <$> apply .expression))
      fun otherwise _ => ∀ value ∈ otherwise, value.WellFormed place.table := by
    refine .afterWord (.map ((expression_grants h opened).mono fun value _ wellFormed => ?_))
      fun _ _ => nofun
    rintro _ ⟨⟩
    exact wellFormed
  refine otherwise.bind_value fun otherwise hotherwise => .expectWord_then (.pure fun _ _ => ?_)
  exact ⟨.case hsubject hbranches.1 (fun branch there => (hbranches.2 branch there).1)
    (fun branch there => (hbranches.2 branch there).2) hotherwise, fun _ => trivial⟩

/-- A conversion is well formed, and it may stand anywhere. -/
theorem conversion_grants :
    Grants place (On now) (conversion apply) fun expr _ =>
      expr.WellFormed place.table ∧ ∀ level, expr.BindsAt place.table level := by
  refine .expectWord_then (.inParentheses ?_)
  refine (expression_grants h opened).bind_value fun operand wellFormed => .expectWord_then ?_
  exact (h.rule opened .dataType rfl rfl).bind fun target => .pure fun _ _ =>
    ⟨.cast wellFormed, fun _ => trivial⟩

/-! ### Parentheses -/

/-- An expression in parentheses is well formed, and it may stand anywhere. -/
theorem parenthesizedExpression_grants :
    Grants place (On now) (parenthesizedExpression apply) fun expr _ =>
      expr.WellFormed place.table ∧ ∀ level, expr.BindsAt place.table level :=
  .map ((Grants.inParentheses (expression_grants h opened)).mono fun _ _ wellFormed =>
    ⟨.paren wellFormed, fun _ => trivial⟩)

/-- A query that stands for a value is well formed, and it may stand anywhere. -/
theorem scalarSubquery_grants :
    Grants place (On now) (scalarSubquery apply) fun expr _ =>
      expr.WellFormed place.table ∧ ∀ level, expr.BindsAt place.table level :=
  .map ((parenthesizedQuery_grants h opened).mono fun _ _ wellFormed =>
    ⟨.subquery wellFormed, fun _ => trivial⟩)

/-- A test whether a query has rows is well formed, and it may stand anywhere. -/
theorem existence_grants :
    Grants place (On now) (existence apply) fun expr _ =>
      expr.WellFormed place.table ∧ ∀ level, expr.BindsAt place.table level :=
  .expectWord_then (.map ((parenthesizedQuery_grants h opened).mono fun _ _ wellFormed =>
    ⟨.exists wellFormed, fun _ => trivial⟩))

/-- A parenthesis that is tried in two ways is well formed, and it may stand anywhere. -/
theorem eitherParenthesis_grants :
    Grants place (On now) (eitherParenthesis apply) fun expr _ =>
      expr.WellFormed place.table ∧ ∀ level, expr.BindsAt place.table level :=
  .firstOf (h.rule opened .parenthesizedTrial rfl rfl) (h.returns .parenthesizedTrial rfl)
    (h.rule opened .subqueryTrial rfl rfl)

/-- What starts with a parenthesis is well formed, and it may stand anywhere. -/
theorem parenthesis_grants (lookahead : Bool) :
    Grants place (On now) (parenthesis lookahead apply) fun expr _ =>
      expr.WellFormed place.table ∧ ∀ level, expr.BindsAt place.table level := by
  refine .ite (fun _ => .nextKind_bind fun next => ?_) fun _ => eitherParenthesis_grants h opened
  refine Grants.anywhere (.ite (fun _ => h.rule opened .scalarSubquery rfl rfl) fun _ => ?_)
  refine .kindsAhead_bind fun kinds => .ite (fun _ => eitherParenthesis_grants h opened) fun _ => ?_
  exact h.rule opened .parenthesized rfl rfl

/-! ### Operands and operators -/

/-- A name is a call or a column, and it may stand anywhere. -/
theorem nameOrCall_grants :
    Grants place (On now) (nameOrCall apply) fun expr _ =>
      expr.WellFormed place.table ∧ ∀ level, expr.BindsAt place.table level := by
  refine .nextKind_bind fun next => Grants.anywhere (.ite (fun _ => .current_bind fun token => ?_)
    fun _ => .map (qualifiedName_grants.mono fun _ _ _ => ⟨.column, fun _ => trivial⟩))
  cases token.geometryFunction? with
  | some function => exact h.rule opened (.geometry function) rfl rfl
  | none => exact h.rule opened .functionCall rfl rfl

/-- An operand without prefix operator is well formed, and it may stand anywhere. -/
theorem primary_grants (lookahead : Bool) :
    Grants place (On now) (primary lookahead apply) fun expr _ =>
      expr.WellFormed place.table ∧ ∀ level, expr.BindsAt place.table level := by
  refine .current_bind fun token => ?_
  cases found : token.literal? with
  | some value =>
    refine .assuming (value.isNegative = false ∧ value.isFinite = true)
      (fun session at' there => ?_)
      fun plain => ?_
    · obtain ⟨_, rfl⟩ := there
      exact at'.genuine.current.literal value found
    · exact Grants.anywhere (.advance_then fun _ => .pure fun _ _ =>
        ⟨.literal plain.1 plain.2, fun _ => trivial⟩)
  | none =>
    have aggregate {word : Keyword} (kind : token.kind = .keyword word) :
        Grants place (fun session => now session.cursor ∧ session.current = token)
          (apply .aggregate) fun expr _ =>
            expr.WellFormed place.table ∧ ∀ level, expr.BindsAt place.table level := by
      refine (h.grants place .aggregate opened).mono_pre fun session there => ?_
      have reserved : token.keyword? = some word := Token.keyword?_eq_some.mpr kind
      change session.current.keyword? ≠ none
      rw [there.2, reserved]
      exact Option.some_ne_none _
    dsimp only
    split
    · exact Grants.anywhere (parenthesis_grants h opened lookahead)
    · exact h.rule opened .case rfl rfl
    · exact h.rule opened .cast rfl rfl
    · exact h.rule opened .exists rfl rfl
    iterate 5 exact aggregate ‹_›
    iterate 2 exact Grants.anywhere (nameOrCall_grants h opened)
    · exact Grants.anywhere (.failExpecting (List.cons_ne_nil _ _))

/-- An operand is well formed, and it may stand anywhere. -/
theorem operand_grants (lookahead : Bool) :
    Grants place (On now) (Grammar.operand lookahead apply) fun expr _ =>
      expr.WellFormed place.table ∧ ∀ level, expr.BindsAt place.table level := by
  refine .currentKind_bind fun kind => Grants.anywhere ?_
  cases UnaryOp.ofToken? kind with
  | none => exact primary_grants h opened lookahead
  | some op =>
    refine .advance_then fun _ => .precedence_bind (.map ?_)
    exact (run_grants h opened _).mono fun operand _ last =>
      ⟨.unary last.wellFormed last.bindsAt, fun _ => trivial⟩

/-- Behind one more predicate a run may go on; a predicate that is too loose ends the run. -/
theorem predicateStep_grants (left : Expr) :
    Grants place
      (On fun cursor => (left.Leads place.table level cursor ∧
        cursor.nextLevel? place.table = some place.table.predicateLevel) ∧ Ahead (count + 1) cursor)
      (predicateStep apply place.table level left)
      (Stepped (Expr.Leads place.table level) (Expr.IsRun place.table level) count) := by
  refine .ite (fun looser => .pure fun session there => ?_) fun tight => ?_
  · refine there.1.1.isRun fun next hnext => ?_
    rw [there.1.2] at hnext
    cases hnext
    exact looser
  · refine .assuming (left.WellFormed place.table ∧
        left.BindsAt place.table place.table.predicateLevel)
      (fun session _ there => ?_) fun hleft => ?_
    · exact ⟨there.1.1.wellFormed, (there.1.1.standsLeft _ there.1.2).bindsAt⟩
    refine .map (.mono_pre ?_ fun _ there => there.2)
    refine (predicateTail_grants h opened hleft.1 hleft.2).mono fun expr session there => ?_
    exact ⟨there.1.mono (Nat.le_of_not_lt tight), there.2⟩

/-- Behind one more binary operator a run may go on; one that is too loose, or none, ends the run.
-/
theorem binaryStep_grants (left : Expr) (kind : TokenKind) :
    Grants place
      (On fun cursor => ((left.Leads place.table level cursor ∧ cursor.nextLevel? place.table =
        (place.table.ofToken? kind).map (·.2.level)) ∧ cursor.current.kind = kind) ∧
          Ahead (count + 1) cursor)
      (binaryStep apply place.table level left kind)
      (Stepped (Expr.Leads place.table level) (Expr.IsRun place.table level) count) := by
  unfold binaryStep
  cases found : place.table.ofToken? kind with
  | none =>
    refine .noteAll_bind (.pure fun session there => there.1.1.1.isRun fun next hnext => ?_)
    rw [there.1.1.2] at hnext
    cases hnext
  | some entry =>
    obtain ⟨op, binding⟩ := entry
    refine .ite (fun looser => .pure fun session there => ?_) fun tight => ?_
    · refine there.1.1.1.isRun fun next hnext => ?_
      rw [there.1.1.2] at hnext
      cases hnext
      exact looser
    · refine .assuming (left.WellFormed place.table ∧ left.StandsLeft place.table binding.level)
        (fun session _ there => ?_) fun hleft => ?_
      · exact ⟨there.1.1.1.wellFormed, there.1.1.1.standsLeft _ there.1.1.2⟩
      refine .advance_more _ (fun cursor there ends => ?_) fun _ => ?_
      · rw [← there.2, ends] at found
        cases found
      · refine (run_grants h opened _).keepsAhead.bind fun right => .pure fun session there => ?_
        exact ⟨.binary found (Nat.le_of_not_lt tight) hleft.1 hleft.2 there.1, there.2⟩

/-- Behind one more operator a run may go on; without one, it has come to its end. -/
theorem operatorStep_grants (left : Expr) :
    Grants place
      (On fun cursor => left.Leads place.table level cursor ∧ Ahead (count + 1) cursor)
      (operatorStep apply level left)
      (Stepped (Expr.Leads place.table level) (Expr.IsRun place.table level) count) := by
  rw [operatorStep_eq]
  refine .precedence_bind (.currentKind_bind fun kind => .nextKind_bind fun behind => .ite
    (fun starts => ?_) fun plain => .currentKind_bind fun kind' => ?_)
  · refine (predicateStep_grants h opened left).mono_pre ?_
    rintro session ⟨⟨⟨leads, less⟩, rfl⟩, rfl⟩
    exact ⟨⟨leads, if_pos starts⟩, less⟩
  · refine (binaryStep_grants h opened left kind').mono_pre ?_
    rintro session ⟨⟨⟨⟨leads, less⟩, rfl⟩, rfl⟩, rfl⟩
    exact ⟨⟨⟨leads, if_neg plain⟩, rfl⟩, less⟩

/-- Operands joined by operators are a run that has come to its end. -/
theorem operators_grants (lookahead : Bool) (level : Nat) :
    Grants place (On now) (operators lookahead apply level) fun expr session =>
      expr.IsRun place.table level session.cursor := by
  refine (operand_grants h opened lookahead).bind_value fun first hfirst => ?_
  refine .mono_pre (.iterate (Expr.Leads place.table level) (Expr.IsRun place.table level) ?_) ?_
  · exact fun count left => operatorStep_grants h opened left
  · exact fun session _ => .of_operand hfirst.1 hfirst.2

end

end Adql
