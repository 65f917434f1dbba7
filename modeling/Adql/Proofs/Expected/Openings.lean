import Adql.Proofs.Expected.Helpful

/-!
# Openings

For each rule, the kinds that may follow it where something is still to be completed (`Rule.follow`),
and a kind that what it reads can start with (`Rule.opening`).  A rule that may nest deep enough reads
something that starts with this kind, up to any of the kinds that may follow (`closes_apply`).  So
whatever rule comes next, a text can be completed.
-/

namespace Adql

open Adql.Parser Adql.Grammar

/-- The kinds that end a run of operators at a level and an operand in front of it. -/
def runEnds (level : Nat) : Set TokenKind :=
  {kind | kind ∉ predicateStart ∧ kind ∉ [.dot, .leftParen, .keyword .ESCAPE] ∧
    ∀ op binding, PrecedenceTable.adql.ofToken? kind = some (op, binding) → binding.level < level}

/-- The kinds that end a run of operators at a level and its last operand, which may be a negation. -/
def runFollows (level : Nat) : Set TokenKind :=
  runEnds (min level PrecedenceTable.adql.notLevel)

/-- The kinds that end a query. -/
def queryEnds : Set TokenKind :=
  {kind | kind ∈ [TokenKind.rightParen, .eof]}

/-- A tighter run of operators ends wherever a looser one does. -/
theorem runEnds_mono {level level' : Nat} (tighter : level ≤ level') :
    runEnds level ⊆ runEnds level' :=
  fun _ ⟨noPredicate, others, loose⟩ =>
    ⟨noPredicate, others, fun op binding found => Nat.lt_of_lt_of_le (loose op binding found) tighter⟩

/-- What ends a run and its last operand ends the run. -/
theorem runFollows_subset (level : Nat) : runFollows level ⊆ runEnds level :=
  runEnds_mono (Nat.min_le_left _ _)

/-- What ends a run and its last operand ends a negated one. -/
theorem runFollows_subset_notLevel (level : Nat) :
    runFollows level ⊆ runEnds PrecedenceTable.adql.notLevel :=
  runEnds_mono (Nat.min_le_right _ _)

/-- A tighter run of operators and its last operand end wherever a looser one and its last operand
do. -/
theorem runFollows_mono {level level' : Nat} (tighter : level ≤ level') :
    runFollows level ⊆ runFollows level' :=
  runEnds_mono (by omega)

/-- A kind that ends an expression ends every run of operators. -/
theorem mem_runEnds_of_ends {kind : TokenKind} (ends : endsExpression kind = true) (level : Nat) :
    kind ∈ runEnds level := by
  have listed : ∀ kind ∈ TokenKind.all, endsExpression kind = true → kind ∉ predicateStart ∧
      kind ∉ [.dot, .leftParen, .keyword .ESCAPE] ∧ BinaryOp.ofToken? kind = none := by decide
  obtain ⟨noPredicate, others, noOperator⟩ := listed kind (TokenKind.mem_all kind) ends
  refine ⟨noPredicate, others, fun op binding found => ?_⟩
  rw [PrecedenceTable.ofToken?, noOperator] at found
  cases found

/-- A run of operators stops in front of a kind that ends it. -/
theorem stops_of_mem_runEnds {level : Nat} {words : List Word}
    (follows : firstKind words ∈ runEnds level) : Stops level words := by
  obtain ⟨noPredicate, -, loose⟩ := follows
  have none : ∀ kind ∈ TokenKind.all, kind ∉ predicateStart →
      kind ≠ .keyword .NOT ∧ startsPredicate kind .eof = false := by decide
  obtain ⟨noNegation, unpredicated⟩ := none _ (TokenKind.mem_all _) noPredicate
  have other : startsPredicate (firstKind words) (secondKind words) = false :=
    (startsPredicate_of_ne noNegation _ _).trans unpredicated
  rw [Stops, other, if_neg Bool.false_ne_true]
  exact loose

namespace Rule

/-- The kinds that may follow a rule where something is still to be completed. -/
def follow : Rule → Set TokenKind
  | .query | .queryBody | .queryTerm | .querySpec | .tableReference | .sortKey => queryEnds
  | .selectList | .selectItem | .derivedColumn => {.keyword .FROM}
  | .tablePrimary => insert (.keyword .ON) queryEnds
  | .expression => runEnds 0
  | .operators level => runFollows level
  | .dataType => {.rightParen}
  | _ => Set.univ

/-- A kind that what the rule reads can start with. -/
def opening : Rule → TokenKind
  | .query | .queryBody | .queryTerm | .querySpec => .keyword .SELECT
  | .selectList => .star
  | .derivedTable | .nestedTable | .parenthesized | .parenthesizedTrial | .scalarSubquery
  | .subqueryTrial => .leftParen
  | .exists => .keyword .EXISTS
  | .aggregate => .keyword .COUNT
  | .case => .keyword .CASE
  | .cast => .keyword .CAST
  | .dataType => .keyword .INTEGER
  | _ => .identifier

/-- How deep rules nest in the shortest text of a rule. -/
def height : Rule → Nat
  | .operators _ | .dataType | .qualifiedWildcard | .aliasName | .selectList => 1
  | .expression | .tablePrimary => 2
  | .derivedColumn | .selectItem | .sortKey | .tableReference | .parenthesized | .aggregate
  | .functionCall | .geometry _ | .case | .cast => 3
  | .querySpec | .parenthesizedTrial | .nestedTable => 4
  | .queryTerm => 5
  | .queryBody => 6
  | .query => 7
  | .commonTable | .derivedTable | .scalarSubquery | .exists => 8
  | .subqueryTrial => 9

end Rule

section

variable {F : Set TokenKind}

/-! ### Names and operands -/

/-- A name without qualifiers is read in front of anything but a point. -/
theorem reads_nameWord_qualified {behind : List Word} (noDot : firstKind behind ≠ .dot) :
    Reads qualifiedName (nameWord :: behind) ⟨[], .regular "x"⟩ behind := by
  have done : Reads (listStep .dot identifier #[.regular "x"]) behind (.done #[.regular "x"]) behind :=
    (Reads.eat_false noDot).bind (.pure _ _)
  have parts : Reads (oneOrMore .dot identifier) (nameWord :: behind) [.regular "x"] behind :=
    (reads_nameWord behind).bind (((Repeats.refl _ behind).iterate done).bind (.pure _ _))
  exact parts.bind (.pure _ _)

/-- A column is read as an operand. -/
theorem reads_nameOperand {apply : (rule : Rule) → Parser rule.Result} {level : Nat}
    {behind : List Word} (follows : firstKind behind ∈ runEnds level) :
    Reads (operand true apply) (nameWord :: behind) (.column ⟨[], .regular "x"⟩) behind := by
  obtain ⟨-, others, -⟩ := follows
  simp only [List.mem_cons, not_or] at others
  obtain ⟨noDot, noParen, -⟩ := others
  have noLiteral : TokenKind.identifier ∉ literalKinds := by decide
  refine reads_operand rfl noLiteral ((Reads.nextKind _).bind ?_)
  rw [secondKind_cons, if_neg noParen]
  exact (reads_nameWord_qualified noDot).map _

/-- The shortest operand. -/
def nameExpr : Expr :=
  .column ⟨[], .regular "x"⟩

variable {allowance level : Nat}

/-- A column is read as a run of operators. -/
theorem reads_nameRun {behind : List Word} (follows : firstKind behind ∈ runEnds level) :
    Reads (Grammar.apply true (allowance + 1) (.operators level)) (nameWord :: behind) nameExpr behind :=
  reads_operators (reads_nameOperand follows) (.refl _ _) (stops_of_mem_runEnds follows)

/-- A column is read as an expression. -/
theorem reads_nameExpression {behind : List Word} (follows : firstKind behind ∈ runEnds 0) :
    Reads (Grammar.apply true (allowance + 2) .expression) (nameWord :: behind) nameExpr behind :=
  .apply (reads_nameRun follows)

/-- What ends a query ends an expression. -/
theorem queryEnds_subset (level : Nat) : queryEnds ⊆ runEnds level := by
  intro kind found
  have ends : ∀ kind ∈ [TokenKind.rightParen, .eof], endsExpression kind = true := by decide
  exact mem_runEnds_of_ends (ends kind found) level

/-- A kind ends an expression. -/
theorem singleton_subset_runEnds {kind : TokenKind} (ends : endsExpression kind = true) (level : Nat) :
    {kind} ⊆ runEnds level :=
  Set.singleton_subset_iff.mpr (mem_runEnds_of_ends ends level)

/-- In front of anything but a name or `AS`, there is no other name. -/
theorem stalls_aliasName {behind : List Word} (noWord : firstKind behind ≠ .keyword .AS)
    (noName : (firstKind behind).isIdentifier = false) :
    Stalls (Grammar.apply true (allowance + 1) .aliasName) behind :=
  .apply (.bind_right (.eat_false noWord) (identifier_stalls noName))

/-- No reserved word ends a query. -/
theorem keyword_not_mem_queryEnds (keyword : Keyword) : .keyword keyword ∉ queryEnds := by
  intro found
  have listed : TokenKind.keyword keyword ∈ [TokenKind.rightParen, .eof] := found
  simp at listed

/-! ### Bodies -/

variable {n : Nat}

/-- A select list can be completed. -/
theorem closes_selectList :
    Closes {.star} {.keyword .FROM} (selectList (Grammar.apply true n)) :=
  .eat_found (.pure subset_rfl _) rfl

/-- A column is read as an item without another name. -/
theorem reads_nameColumn {behind : List Word} (deep : 2 ≤ n)
    (follows : firstKind behind = .keyword .FROM) :
    Reads (derivedColumn (Grammar.apply true n)) (nameWord :: behind) ⟨nameExpr, none⟩ behind := by
  obtain ⟨less, rfl⟩ : ∃ less, n = less + 2 := ⟨n - 2, by omega⟩
  have ends : firstKind behind ∈ runEnds 0 := mem_runEnds_of_ends (follows ▸ by decide) 0
  have noName : Stalls (Grammar.apply true (less + 2) .aliasName) behind :=
    stalls_aliasName (follows ▸ nofun) (follows ▸ rfl)
  exact (reads_nameExpression ends).bind ((Reads.optional_none (noName.fails rfl)).bind (.pure _ _))

/-- An expression with an optional name can be completed. -/
theorem closes_derivedColumn (deep : 2 ≤ n) :
    Closes {.identifier} {.keyword .FROM} (derivedColumn (Grammar.apply true n)) :=
  .of_name fun _ => reads_nameColumn deep

/-- An item of a select list can be completed. -/
theorem closes_selectItem (deep : 2 ≤ n) :
    Closes {.identifier} {.keyword .FROM} (selectItem (Grammar.apply true n)) := by
  refine .of_name (a := ⟨nameExpr, none⟩) fun behind follows =>
    (Reads.currentKind _).bind ((Reads.nextKind _).bind ?_)
  have next : secondKind (nameWord :: behind) = .keyword .FROM := secondKind_cons _ _ ▸ follows
  rw [next]
  exact reads_nameColumn deep follows

/-- A table can be completed. -/
theorem closes_tablePrimary (deep : 1 ≤ n) :
    Closes {.identifier} (insert (.keyword .ON) queryEnds) (tablePrimary (Grammar.apply true n)) := by
  obtain ⟨less, rfl⟩ : ∃ less, n = less + 1 := ⟨n - 1, by omega⟩
  refine .of_name (a := .table ⟨[], .regular "x"⟩ none) fun behind follows => ?_
  have listed : ∀ kind ∈ [TokenKind.keyword .ON, .rightParen, .eof],
      kind ≠ .dot ∧ kind ≠ .keyword .AS ∧ kind.isIdentifier = false := by decide
  have found : firstKind behind ∈ [TokenKind.keyword .ON, .rightParen, .eof] :=
    follows.elim (fun on => on ▸ List.mem_cons_self) (List.mem_cons_of_mem _)
  obtain ⟨noDot, noWord, noName⟩ := listed _ found
  have name : Stalls (Grammar.apply true (less + 1) .aliasName) behind :=
    stalls_aliasName noWord noName
  have noParen : firstKind (nameWord :: behind) ≠ .leftParen := nofun
  exact (Reads.check_false noParen).bind ((reads_nameWord_qualified noDot).bind
    ((Reads.optional_none (name.fails rfl)).bind (.pure _ _)))

/-- Behind a query, no join is read. -/
theorem reads_joinStep_end (left : TableRef) {behind : List Word}
    (follows : firstKind behind ∈ queryEnds) :
    Reads (joinStep (Grammar.apply true n) left) behind (.done left) behind := by
  have other (keyword : Keyword) : firstKind behind ≠ .keyword keyword :=
    fun same => keyword_not_mem_queryEnds keyword (same ▸ follows)
  have noOuter : Reads outerJoin? behind none behind :=
    (Reads.eat_false (other _)).bind ((Reads.eat_false (other _)).bind
      ((Reads.eat_false (other _)).bind (.pure _ _)))
  have noJoin : Reads (joinKind? false) behind none behind :=
    (Reads.eat_false (other _)).bind ((Reads.eat_false (other _)).bind
      ((Reads.eat_false (other _)).bind (noOuter.bind (.pure _ _))))
  exact (Reads.eat_false (other _)).bind (noJoin.bind (.pure _ _))

/-- Items with joins can be completed. -/
theorem closes_tableReference (h : Closes {.identifier} (insert (.keyword .ON) queryEnds)
      (Grammar.apply true n .tablePrimary)) :
    Closes {.identifier} queryEnds (tableReference (Grammar.apply true n)) :=
  (h.mono subset_rfl (Set.subset_insert _ _)).bind fun left =>
    .iterate fun _ follows => reads_joinStep_end left follows

/-- A sort key can be completed. -/
theorem closes_sortKey (h : Closes {.identifier} (runEnds 0) (Grammar.apply true n .expression)) :
    Closes {.identifier} queryEnds (sortKey (Grammar.apply true n)) :=
  (h.mono subset_rfl (queryEnds_subset 0)).bind fun _ =>
    .eat_missed (.eat_missed (.pure subset_rfl _) (keyword_not_mem_queryEnds _))
      (keyword_not_mem_queryEnds _)

/-- A name with or without `AS` can be completed. -/
theorem closes_aliasName : Closes {.identifier} F aliasName :=
  .eat_missed .identifier nofun

/-- A point and a star are written so. -/
theorem spelled_pointStar : ∀ word ∈ [TokenKind.dot.word, TokenKind.star.word], word.Spelled :=
  List.forall_mem_cons.mpr ⟨rfl, List.forall_mem_singleton.mpr rfl⟩

/-- All columns of a table can be completed. -/
theorem closes_qualifiedWildcard : Closes {.identifier} F qualifiedWildcard := by
  refine ⟨[nameWord, TokenKind.dot.word, TokenKind.star.word], .unnamed (.wildcard [.regular "x"]),
    List.forall_mem_cons.mpr ⟨spelled_nameWord, spelled_pointStar⟩,
    fun behind _ => ⟨rfl, (reads_nameWord _).bind ?_⟩⟩
  have step : Reads (wildcardStep (#[.regular "x"], false))
      (TokenKind.dot.word :: TokenKind.star.word :: behind) (.done (#[.regular "x"], true)) behind :=
    .expect_bind rfl ((Reads.eat_true rfl).bind (.pure _ _))
  exact ((Repeats.refl _ _).iterate step).bind (.pure _ _)

/-- A data type can be completed. -/
theorem closes_dataType : Closes {.keyword .INTEGER} F dataType := by
  refine ⟨[Keyword.INTEGER.word], .integer, List.forall_mem_singleton.mpr rfl, fun behind _ =>
    ⟨rfl, .current_bind fun token same => ?_⟩⟩
  have kind : token.kind = .keyword .INTEGER := congrArg Word.kind same
  have type : simpleType? token = some .integer := by
    rw [simpleType?, kind]
  simp only [kind, type]
  exact .advance_bind fun _ _ => .pure _ _

/-- A query in parentheses can be completed. -/
theorem closes_parenthesizedQuery
    (h : Closes {.keyword .SELECT} queryEnds (Grammar.apply true n .query)) :
    Closes {.leftParen} F (parenthesizedQuery (Grammar.apply true n)) :=
  .inParentheses (h.mono subset_rfl (Set.singleton_subset_iff.mpr List.mem_cons_self))

/-- A query with a name in front of it can be completed. -/
theorem closes_commonTable
    (h : Closes {.keyword .SELECT} queryEnds (Grammar.apply true n .query)) :
    Closes {.identifier} F (commonTable (Grammar.apply true n)) :=
  Closes.identifier.bind fun _ => .bind (H := {.keyword .AS})
    (.eat_missed (.pure subset_rfl []) nofun) fun _ =>
    .expectWord_bind ((closes_parenthesizedQuery (F := F) h).bind fun _ => .pure subset_rfl _)

/-- A query that stands for a table can be completed. -/
theorem closes_derivedTable
    (h : Closes {.keyword .SELECT} queryEnds (Grammar.apply true n .query)) :
    Closes {.leftParen} F (derivedTable (Grammar.apply true n)) :=
  (closes_parenthesizedQuery h).bind fun _ => closes_aliasName.bind fun _ => .pure subset_rfl _

/-- Joins in parentheses can be completed. -/
theorem closes_nestedTable
    (h : Closes {.identifier} queryEnds (Grammar.apply true n .tableReference)) :
    Closes {.leftParen} F (nestedTable (Grammar.apply true n)) :=
  .map (.inParentheses (h.mono subset_rfl (Set.singleton_subset_iff.mpr List.mem_cons_self)))

/-- Behind the name of a function, a call can be completed. -/
theorem closes_arguments (name : Identifier) : Closes {.leftParen} F (do
    let _ ← expect .leftParen
    let arguments ← callArguments (Grammar.apply true n)
    let _ ← expect .rightParen
    pure (Expr.call name arguments false)) := by
  have none : Closes {.rightParen} {.rightParen} (callArguments (Grammar.apply true n)) :=
    .of_nothing fun behind follows => (Reads.check_true follows).bind (.pure _ _)
  exact .expect_bind (none.bind fun _ =>
    .expect_bind (.pure (G := Set.univ) (Set.subset_univ F) _) rfl) rfl

/-- A call can be completed. -/
theorem closes_functionCall : Closes {.identifier} F (functionCall (Grammar.apply true n)) :=
  Closes.identifier.bind closes_arguments

/-- Three arguments and one more are enough. -/
theorem Geometry.lt_of_needsMore {function : Geometry} {count : Nat}
    (needs : function.needsMore (count + 1) = true) : count < 3 := by
  rw [Geometry.needsMore, Bool.or_eq_true, Bool.and_eq_true, decide_eq_true_eq, decide_eq_true_eq,
    decide_eq_true_eq] at needs
  have most : function.arity.1 ≤ 3 := by cases function <;> decide
  omega

section

variable (h : Closes {.identifier} (runEnds 0) (Grammar.apply true n .expression))

include h

/-- An expression in parentheses can be completed. -/
theorem closes_parenthesizedExpression :
    Closes {.leftParen} F (parenthesizedExpression (Grammar.apply true n)) :=
  .map (.inParentheses (h.mono subset_rfl (singleton_subset_runEnds rfl 0)))

/-- The argument of an aggregate function can be completed. -/
theorem closes_aggregateArgument (word : Keyword) :
    Closes {.identifier} {.rightParen} (aggregateArgument (Grammar.apply true n) word) := by
  have argument : Closes {.identifier} {.rightParen} (Grammar.apply true n .expression) :=
    h.mono subset_rfl (singleton_subset_runEnds rfl 0)
  have rest : Closes {.identifier} {.rightParen} (do
      if ← eatWord .DISTINCT then
        return (← Grammar.apply true n .expression, true)
      let _ ← eatWord .ALL
      return (← Grammar.apply true n .expression, false)) :=
    .eat_missed (.eat_missed (argument.bind fun _ => .pure subset_rfl _) nofun) nofun
  unfold aggregateArgument
  split
  · exact .eat_missed rest nofun
  · exact rest

/-- The rest of a call of an aggregate function can be completed. -/
theorem closes_aggregateCall (word : Keyword) : Closes {.leftParen} F (do
    let _ ← expect .leftParen
    let (argument, distinct) ← aggregateArgument (Grammar.apply true n) word
    let _ ← expect .rightParen
    pure (Expr.call (.regular word.spelling) [argument] distinct)) :=
  .expect_bind ((closes_aggregateArgument h word).bind fun _ =>
    .expect_bind (.pure (G := Set.univ) (Set.subset_univ F) _) rfl) rfl

/-- An aggregate function can be called. -/
theorem offers_aggregate (word : Keyword) :
    Offers F (aggregate (Grammar.apply true n)) [] (.keyword word) := by
  have offers : Offers F (advance >>= fun _ => _) [] (.keyword word) :=
    .advance_bind (closes_aggregateCall h word) rfl
  refine offers.of_reads fun behind a first final reads => .current_bind fun token same => ?_
  have noEnd : TokenKind.keyword word ≠ .eof := nofun
  obtain ⟨head, tail, rfl, -⟩ := exists_cons_of_firstKind noEnd first
  have kind : token.kind = .keyword word := (congrArg Word.kind same).trans first
  rw [Token.keyword?_eq_some.mpr kind]
  exact reads

/-- The arguments of a geometry function can be completed: as long as one is lacking, there is another
one. -/
theorem closes_geometrySteps (function : Geometry) (arguments : Array Expr) :
    Closes {.identifier} F (iterate (geometryStep (Grammar.apply true n) function) arguments) := by
  have closing : firstKind [TokenKind.rightParen.word] = .rightParen := rfl
  have steps {state final : Array Expr} {words rest : List Word}
      (reads : Reads (geometryStep (Grammar.apply true n) function state >>=
        Honest.afterStep (geometryStep (Grammar.apply true n) function)) words final rest) :
      Reads (iterate (geometryStep (Grammar.apply true n) function) state) words final rest :=
    Honest.reads_iterate (Congruence.rel_geometryStep (fun rule => apply_nearby (Nat.le_refl n) rule) function)
      (fun _ _ _ _ => ((apply_carries closing n).onExpressions.geometryStep function).shorter) reads
  have argument := h
  obtain ⟨words, expr, spelled, first⟩ := argument
  cases needs : function.needsMore (arguments.push expr).size with
  | true =>
    have few : arguments.size < 3 := Geometry.lt_of_needsMore (Array.size_push expr ▸ needs)
    obtain ⟨more, final, spelled', others⟩ := closes_geometrySteps function (arguments.push expr)
    refine ⟨words ++ TokenKind.comma.word :: more, final,
      List.forall_mem_append.mpr ⟨spelled, List.forall_mem_cons.mpr ⟨rfl, spelled'⟩⟩,
      fun behind follows => ?_⟩
    obtain ⟨-, reads⟩ := others behind follows
    obtain ⟨start, reads'⟩ := first (TokenKind.comma.word :: (more ++ behind)) (mem_runEnds_of_ends rfl 0)
    rw [List.append_assoc, List.cons_append]
    have step : Reads (geometryStep (Grammar.apply true n) function arguments)
        (words ++ TokenKind.comma.word :: (more ++ behind)) (.more (arguments.push expr))
        (more ++ behind) := by
      refine reads'.bind ?_
      rw [if_pos needs]
      exact .expect_bind rfl (.pure _ _)
    exact ⟨start, steps (step.bind reads)⟩
  | false =>
    refine ⟨words ++ [TokenKind.rightParen.word], arguments.push expr,
      List.forall_mem_append.mpr ⟨spelled, List.forall_mem_singleton.mpr rfl⟩, fun behind follows => ?_⟩
    obtain ⟨start, reads⟩ := first (TokenKind.rightParen.word :: behind) (mem_runEnds_of_ends rfl 0)
    rw [List.append_assoc, List.singleton_append]
    have noComma : Reads (if function.acceptsMore (arguments.push expr).size then eat .comma else pure false)
        (TokenKind.rightParen.word :: behind) false (TokenKind.rightParen.word :: behind) := by
      split
      · exact .eat_false nofun
      · exact .pure _ _
    have step : Reads (geometryStep (Grammar.apply true n) function arguments)
        (words ++ TokenKind.rightParen.word :: behind) (.done (arguments.push expr)) behind := by
      refine reads.bind ?_
      rw [if_neg (needs ▸ Bool.false_ne_true)]
      exact noComma.bind (.expect_bind rfl (.pure _ _))
    exact ⟨start, steps (step.bind (.pure _ _))⟩
termination_by 3 - arguments.size
decreasing_by
  rw [Array.size_push]
  omega

/-- Behind the name of a geometry function, a call can be completed. -/
theorem closes_geometryArguments (function : Geometry) : Closes {.leftParen} F (do
    let _ ← expect .leftParen
    let arguments ← iterate (geometryStep (Grammar.apply true n) function) #[]
    pure (Expr.geometry function arguments.toList)) :=
  .expect_bind ((closes_geometrySteps h function #[]).bind fun _ => .pure subset_rfl _) rfl

/-- A call of a geometry function can be completed. -/
theorem closes_geometryCall (function : Geometry) :
    Closes {.identifier} F (geometryCall (Grammar.apply true n) function) := by
  obtain ⟨words, expr, spelled, closing⟩ := closes_geometryArguments (F := F) h function
  refine ⟨nameWord :: words, expr, List.forall_mem_cons.mpr ⟨spelled_nameWord, spelled⟩,
    fun behind follows => ⟨rfl, ?_⟩⟩
  exact .advance_bind fun _ _ => (closing behind follows).2

/-- The branches of a case distinction can be completed. -/
theorem closes_branchSteps (branches : Array Branch) :
    Closes {.identifier} {.keyword .ELSE, .keyword .END}
      (iterate (branchStep (Grammar.apply true n)) branches) := by
  obtain ⟨words, expr, spelled, first⟩ := h
  refine ⟨words ++ Keyword.THEN.word :: words, branches.push ⟨expr, expr⟩,
    List.forall_mem_append.mpr ⟨spelled, List.forall_mem_cons.mpr ⟨rfl, spelled⟩⟩,
    fun behind follows => ?_⟩
  have ends : firstKind behind ∈ runEnds 0 :=
    Set.insert_subset_iff.mpr ⟨mem_runEnds_of_ends rfl 0, singleton_subset_runEnds rfl 0⟩ follows
  have noBranch : firstKind behind ≠ .keyword .WHEN :=
    follows.elim (fun same => same ▸ nofun) fun same => same ▸ nofun
  obtain ⟨-, result⟩ := first behind ends
  obtain ⟨start, condition⟩ := first (Keyword.THEN.word :: (words ++ behind)) (mem_runEnds_of_ends rfl 0)
  rw [List.append_assoc, List.cons_append]
  refine ⟨start, (Repeats.refl _ _).iterate ?_⟩
  exact condition.bind ((Reads.expectWord .THEN _).bind (result.bind
    ((Reads.eat_false noBranch).bind (.pure _ _))))

/-- A case distinction can be completed. -/
theorem closes_caseDistinction : Closes {.keyword .CASE} F (caseDistinction (Grammar.apply true n)) := by
  have none : Closes {.keyword .WHEN} {.keyword .WHEN} (caseSubject (Grammar.apply true n)) :=
    .of_nothing fun behind follows => (Reads.check_true follows).bind (.pure Option.none _)
  have branches (branches : Array Branch) : Closes {.identifier} {.keyword .END}
      (iterate (branchStep (Grammar.apply true n)) branches) :=
    (closes_branchSteps h branches).mono subset_rfl (Set.subset_insert _ _)
  exact .expectWord_bind (none.bind fun _ => .expectWord_bind ((branches #[]).bind fun _ =>
    .bind (.afterWord nofun) fun _ => .expectWord_bind (.pure (G := Set.univ) (Set.subset_univ F) _)))

/-- A conversion can be completed. -/
theorem closes_conversion
    (h' : Closes {.keyword .INTEGER} {.rightParen} (Grammar.apply true n .dataType)) :
    Closes {.keyword .CAST} F (conversion (Grammar.apply true n)) :=
  .expectWord_bind (.inParentheses ((h.mono subset_rfl (singleton_subset_runEnds rfl 0)).bind fun _ =>
    .expectWord_bind (h'.bind fun _ => .pure subset_rfl _)))

end

section

variable {G : Set TokenKind}

/-- The clauses of a query can be completed where its body can. -/
theorem closes_queryClauses (h : Closes G queryEnds (Grammar.apply true n .queryBody))
    (commonTables : List CommonTable) : Closes G queryEnds (do
      let body ← Grammar.apply true n .queryBody
      let keys ← afterWord .ORDER [] (clause [] (sortKeys (Grammar.apply true n)))
      let offset ← afterWord .OFFSET none (clause none (some <$> rowCount))
      pure (assembleQuery commonTables body keys offset)) :=
  h.bind fun _ => .bind (.afterWord (keyword_not_mem_queryEnds _)) fun _ =>
    .bind (.afterWord (keyword_not_mem_queryEnds _)) fun _ => .pure subset_rfl _

/-- A query can be completed where its body can. -/
theorem closes_query (h : Closes G queryEnds (Grammar.apply true n .queryBody))
    (noWith : .keyword .WITH ∉ G) : Closes G queryEnds (query (Grammar.apply true n)) :=
  .bind (.afterWord noWith) (closes_queryClauses h)

/-- A query with named queries in front of it can be completed. -/
theorem closes_queryWith (h : Closes {.keyword .SELECT} queryEnds (Grammar.apply true n .queryBody))
    (h' : Closes {.identifier} {.keyword .SELECT} (Grammar.apply true n .commonTable)) :
    Closes {.keyword .WITH} queryEnds (query (Grammar.apply true n)) :=
  .bind (.eat_found (h'.oneOrMore nofun) rfl) (closes_queryClauses h)

/-- Behind a query, no set operator is read. -/
theorem reads_setStep_end {operand : Parser QueryBody} {level : Nat} {left : QueryBody}
    {behind : List Word} (follows : firstKind behind ∈ queryEnds) :
    Reads (setStep operand level left) behind (.done left) behind := by
  have other (keyword : Keyword) : firstKind behind ≠ .keyword keyword :=
    fun same => keyword_not_mem_queryEnds keyword (same ▸ follows)
  have nothing : Reads setOperator? behind none behind :=
    (Reads.check_false (other _)).bind ((Reads.check_false (other _)).bind
      ((Reads.check_false (other _)).bind (.pure _ _)))
  exact nothing.bind (.pure _ _)

/-- A query body can be completed. -/
theorem closes_queryBody (h : Closes G queryEnds (Grammar.apply true n .queryTerm)) :
    Closes G queryEnds (queryBody (Grammar.apply true n)) :=
  (h.bind fun _ => .iterate fun _ => reads_setStep_end).bind fun _ =>
    .iterate fun _ => reads_setStep_end

/-- A query in parentheses can be completed as an operand of a set operator. -/
theorem closes_nestedTerm (h : Closes {.keyword .SELECT} queryEnds (Grammar.apply true n .query)) :
    Closes {.leftParen} F (queryTerm (Grammar.apply true n)) := by
  have inner : Closes {.keyword .SELECT} {.rightParen} (Grammar.apply true n .query) :=
    h.mono subset_rfl (Set.singleton_subset_iff.mpr List.mem_cons_self)
  refine .check_missed (.eat_found (inner.bind fun query => ?_) rfl) nofun
  exact .expect_bind (.pure (G := Set.univ) (Set.subset_univ F) (QueryBody.nested query)) rfl

end

section

variable (h : ∀ rule : Rule, rule.height ≤ n → Closes {rule.opening} rule.follow (Grammar.apply true n rule))

include h

/-- An operand of a set operator can be completed. -/
theorem closes_queryTerm (deep : 4 ≤ n) :
    Closes {.keyword .SELECT} queryEnds (queryTerm (Grammar.apply true n)) := by
  have differs : TokenKind.rightParen ≠ .keyword .SELECT := nofun
  have spec := (h .querySpec deep).bind fun spec => .pure subset_rfl (QueryBody.spec spec)
  exact .check_found (spec.offers differs List.mem_cons_self) rfl

/-- A specification can be completed. -/
theorem closes_querySpec (deep : 3 ≤ n) :
    Closes {.keyword .SELECT} queryEnds (querySpec (Grammar.apply true n)) := by
  have noWord (keyword : Keyword) : TokenKind.keyword keyword ∉ ({.star} : Set TokenKind) := nofun
  have tables : Closes {.keyword .FROM} queryEnds (fromClause (Grammar.apply true n)) :=
    .expectWord_bind ((h .tableReference deep).oneOrMore nofun)
  refine .expectWord_bind <| .bind (H := {.star}) (.eat_missed (.eat_missed (.pure subset_rfl false)
    (noWord _)) (noWord _)) fun _ => .bind (.afterWord (noWord _)) fun _ =>
    (h .selectList (Nat.le_trans (by decide) deep)).bind fun _ => tables.orRecover.bind fun _ => ?_
  exact .bind (.afterWord (keyword_not_mem_queryEnds _)) fun _ =>
    .bind (.afterWord (keyword_not_mem_queryEnds _)) fun _ =>
    .bind (.afterWord (keyword_not_mem_queryEnds _)) fun _ => .pure subset_rfl _

end

end

/-! ### All rules -/

/-- A rule that may nest deep enough can be completed. -/
theorem closes_apply (rule : Rule) (allowance : Nat) (deep : rule.height ≤ allowance) :
    Closes {rule.opening} rule.follow (Grammar.apply true allowance rule) := by
  induction allowance generalizing rule with
  | zero =>
    have high : 0 < rule.height := by cases rule <;> exact Nat.succ_pos _
    omega
  | succ n ih =>
    have less {other : Rule} (lower : other.height + 1 ≤ rule.height) : other.height ≤ n := by omega
    refine .apply ?_
    cases rule with
    | query => exact closes_query (ih .queryBody (less (by decide))) nofun
    | queryBody => exact closes_queryBody (ih .queryTerm (less (by decide)))
    | queryTerm => exact closes_queryTerm ih (Nat.le_of_succ_le_succ deep)
    | querySpec => exact closes_querySpec ih (Nat.le_of_succ_le_succ deep)
    | selectList => exact closes_selectList
    | selectItem => exact closes_selectItem (Nat.le_of_succ_le_succ deep)
    | qualifiedWildcard => exact closes_qualifiedWildcard
    | derivedColumn => exact closes_derivedColumn (Nat.le_of_succ_le_succ deep)
    | aliasName => exact closes_aliasName
    | tableReference => exact closes_tableReference (ih .tablePrimary (less (by decide)))
    | tablePrimary => exact closes_tablePrimary (Nat.le_of_succ_le_succ deep)
    | derivedTable => exact closes_derivedTable (ih .query (less (by decide)))
    | nestedTable => exact closes_nestedTable (ih .tableReference (less (by decide)))
    | commonTable => exact closes_commonTable (ih .query (less (by decide)))
    | sortKey => exact closes_sortKey (ih .expression (less (by decide)))
    | expression => exact ih (.operators 0) (less (by decide))
    | operators level =>
      refine .of_name (a := nameExpr) fun behind follows => ?_
      have ends := runFollows_subset level follows
      exact (reads_nameOperand ends).bind
        ((Repeats.refl _ behind).iterate (reads_operatorStep_done _ (stops_of_mem_runEnds ends)))
    | parenthesized => exact closes_parenthesizedExpression (ih .expression (less (by decide)))
    | parenthesizedTrial => exact ih .parenthesized (less (by decide))
    | scalarSubquery => exact (closes_parenthesizedQuery (ih .query (less (by decide)))).map
    | subqueryTrial => exact ih .scalarSubquery (less (by decide))
    | «exists» =>
      exact .expectWord_bind (closes_parenthesizedQuery (ih .query (less (by decide)))).map
    | aggregate =>
      exact .of_offers (offers_aggregate (ih .expression (less (by decide))) .COUNT) rfl
    | functionCall => exact closes_functionCall
    | geometry function => exact closes_geometryCall (ih .expression (less (Nat.le_refl 3))) function
    | case => exact closes_caseDistinction (ih .expression (less (by decide)))
    | cast =>
      exact closes_conversion (ih .expression (less (by decide))) (ih .dataType (less (by decide)))
    | dataType => exact closes_dataType

end Adql
