import Adql.Proofs.Composition.Places

/-!
# Exchanging conditions

What follows a condition is read in the same way whatever the condition was: a run of operators goes
on in front of the same words whatever its operands are worth (`operatorStep_restarted`), and so does
a run of set operators (`setStep_restarted`).  So if whatever is read as a condition can be exchanged
for other words that are read as a condition too, then this can be done in the condition of a
statement (`Exchanges.statement`).
-/

namespace Adql

open Adql.Parser Adql.Grammar

variable {α σ : Type} {words rest behind : List Word} {good : Word → Prop}

/-! ### What a run shows of parsers that are no rules -/

/-- What a parser reads, a parser that does not tell sessions apart from it reads as well. -/
theorem Reads.of_nearby {p q : Parser α} {a : α} (same : nearby.rel Eq p q)
    (h : Reads p words a rest) : Reads q words a rest := by
  intro good session faces
  obtain ⟨after, hrun, hafter⟩ := h good session faces
  have other := same good good words session session faces faces
  rw [hrun] at other
  generalize q session = result at other
  cases other with
  | @ok _ _ _ final rest' value faces faces' =>
    have ahead : rest' = rest := by rw [← faces.words_eq, hafter.words_eq]
    exact ⟨final, by rw [value], ahead ▸ faces'⟩

/-- What a parser yields in a run, it reads, if it does not tell sessions apart. -/
theorem Ensures.reads_of_nearby {p : Parser α} (same : nearby.rel Eq p p) (words : List Word) :
    Ensures p words (fun a rest => Reads p words a rest) good := by
  intro session after value faces hrun
  have self := same good good words session session faces faces
  rw [hrun] at self
  cases self with
  | @ok _ _ _ _ rest _ hafter _ =>
    refine ⟨rest, hafter, fun good' session' faces' => ?_⟩
    have other := same good good' words session session' faces faces'
    rw [hrun] at other
    generalize p session' = result at other
    cases other with
    | @ok _ _ _ final rest' value faces faces' =>
      have ahead : rest' = rest := by rw [← faces.words_eq, hafter.words_eq]
      exact ⟨final, by rw [value], ahead ▸ faces'⟩

/-- What a rule reads somewhere, it yields wherever it does not nest too deep. -/
theorem Reads.ensures_apply {rule : Rule} {allowance : Nat} {value : rule.Result}
    (h : Reads (Grammar.apply true allowance rule) words value rest) (allowance' : Nat) :
    Ensures (Grammar.apply true allowance' rule) words (fun value' rest' => value' = value ∧ rest' = rest)
      good := by
  rcases h.settled allowance' with reads | aborts
  · exact reads.ensures ⟨rfl, rfl⟩
  · intro session after value faces hrun
    obtain ⟨_, _, hrun', _⟩ := aborts _ session faces
    rw [hrun] at hrun'
    cases hrun'

/-- A repetition that succeeds has got from step to step to where it was done. -/
theorem Ensures.repeats {step : σ → Parser (Step σ)}
    (same : ∀ state, nearby.rel Eq (step state) (step state))
    (shorter : ∀ state words state' rest, Reads (step state) words (.more state') rest →
      rest.length < words.length) (start : σ) (words : List Word) :
    Ensures (Parser.iterate step start) words (fun final rest => ∃ last middle,
      Repeats .adql step start words last middle ∧ Reads (step last) middle (.done final) rest)
      good := by
  refine .iterate (I := fun state middle => Repeats .adql step start words state middle)
    (.refl start words) fun state middle repeats => ?_
  refine (Ensures.reads_of_nearby (same state) middle).mono fun next rest reads => ?_
  cases next with
  | more state' =>
    have fewer := shorter _ _ _ _ reads
    exact ⟨repeats.trans (.cons reads fewer (.refl _ _)), fewer⟩
  | done final => exact ⟨state, middle, repeats, reads⟩

/-- A step that carries over leaves fewer words, if there are more steps. -/
theorem CarriedStep.shorter {opened opened' : Int} {step : σ → Parser (Step σ)}
    (h : CarriedStep behind opened opened' step) {state state' : σ}
    (reads : Reads (step state) words (.more state') rest) : rest.length < words.length := by
  cases h state words with
  | reads meets _ reads' _ =>
    obtain ⟨rfl, rfl⟩ := reads'.unique reads
    exact meets.2
  | stalls stalls _ => exact absurd stalls reads.not_stalls
  | aborts aborts _ => exact absurd reads aborts.not_reads

/-! ### Steps that start elsewhere -/

/-- What a step says, if it has another state to start from. -/
def Parser.Step.restarted (change : σ → σ) (start : σ) : Step σ → Step σ
  | .more state => .more (change state)
  | .done _ => .done start

/-- Steps go on in the same way from wherever they start. -/
theorem Repeats.restarted {step step' : σ → Parser (Step σ)} {change : σ → σ → σ}
    (h : ∀ state state' words next rest, Reads (step state) words next rest →
      Reads (step' state') words (next.restarted (change state') state') rest)
    {start last : σ} {middle : List Word} (repeats : Repeats .adql step start words last middle)
    (start' : σ) : ∃ last', Repeats .adql step' start' words last' middle := by
  induction repeats generalizing start' with
  | refl => exact ⟨start', .refl _ _⟩
  | @cons _ state' _ _ _ _ reads shorter _ ih =>
    obtain ⟨last', repeats⟩ := ih (change start' state')
    exact ⟨last', .cons (h _ start' _ _ _ reads) shorter repeats⟩

/-- A repetition gets as far with other steps that read the same. -/
theorem Repeats.mono {step step' : σ → Parser (Step σ)}
    (h : ∀ state words next rest, Reads (step state) words next rest →
      Reads (step' state) words next rest) {start last : σ} {middle : List Word}
    (repeats : Repeats .adql step start words last middle) :
    Repeats .adql step' start words last middle := by
  induction repeats with
  | refl => exact .refl _ _
  | cons reads shorter _ ih => exact .cons (h _ _ _ _ reads) shorter ih

/-- Failing is all the same for what is made of the value. -/
theorem map_fail {β : Type} (f : α → β) : f <$> (fail : Parser α) = fail := rfl

/-- The expression with another first operand. -/
def Expr.withFirst (first : Expr) : Expr → Expr
  | .binary _ op right => .binary first op right
  | .isNull _ negated => .isNull first negated
  | .between _ low high negated => .between first low high negated
  | .inList _ items negated => .inList first items negated
  | .inQuery _ query negated => .inQuery first query negated
  | .like _ pattern escape negated caseInsensitive =>
    .like first pattern escape negated caseInsensitive
  | other => other

/-- A predicate is read in the same way whatever its first operand is. -/
theorem predicateTail_withFirst (apply : (rule : Rule) → Parser rule.Result) (left left' : Expr)
    (level : Nat) :
    predicateTail apply left' level = Expr.withFirst left' <$> predicateTail apply left level := by
  simp [predicateTail, betweenTail, inTail, likeTail, Expr.withFirst, apply_ite (Functor.map _),
    map_fail]

/-- A run of operators goes on in the same way whatever its first operand is. -/
theorem operatorStep_restarted (apply : (rule : Rule) → Parser rule.Result) (level : Nat)
    (left left' : Expr) :
    operatorStep apply level left' =
      Step.restarted (Expr.withFirst left') left' <$> operatorStep apply level left := by
  unfold operatorStep
  simp only [map_bind, predicateTail_withFirst apply left left']
  refine bind_congr fun table => bind_congr fun kind => bind_congr fun next => ?_
  split
  · split <;> simp [Step.restarted]
  · rw [map_bind]
    refine bind_congr fun kind => ?_
    split
    · simp [Step.restarted]
    · split <;> simp [Step.restarted, Expr.withFirst]

/-- The set operation with another first operand. -/
def QueryBody.withFirst (first : QueryBody) : QueryBody → QueryBody
  | .setOperation op all _ right => .setOperation op all first right
  | other => other

/-- A run of set operators goes on in the same way whatever its first operand is. -/
theorem setStep_restarted (operand : Parser QueryBody) (level : Nat) (left left' : QueryBody) :
    setStep operand level left' =
      Step.restarted (QueryBody.withFirst left') left' <$> setStep operand level left := by
  unfold setStep
  rw [map_bind]
  refine bind_congr fun op? => ?_
  cases op? with
  | none => simp [Step.restarted]
  | some op =>
    dsimp only
    split <;> simp [Step.restarted, QueryBody.withFirst]

/-! ### Statements with a condition -/

/-- The rule reads the words up to the rest, where rules may nest deep enough. -/
def Recognizes (rule : Rule) (words rest : List Word) : Prop :=
  ∃ allowance value, Reads (apply true allowance rule) words value rest

/-- Whatever the rule reads from the words, it reads from the other ones, too. -/
def Exchanges (rule : Rule) (words words' : List Word) : Prop :=
  ∀ good allowance, Ensures (apply true allowance rule) words
    (fun _ rest => Recognizes rule words' rest) good

section

variable {words' : List Word}

/-- The rules that are applied do not tell sessions apart, however deep they may nest. -/
theorem nearby_apply {allowance allowance' : Nat} (deeper : allowance ≤ allowance') :
    ∀ rule, nearby.rel Eq (apply true allowance rule) (apply true allowance' rule) :=
  fun rule => apply_nearby deeper rule

/-- If a chain of operands can be exchanged for the first operand of an expression, the run of operators
goes on behind the chain as it does behind the operand. -/
theorem Exchanges.expression
    (h : ∀ good allowance, Ensures (operand true (apply true allowance)) words (fun _ rest => ∃ m last,
      Chains (operand true (apply true m)) (operatorStep (apply true m) 0) words' last rest) good) :
    Exchanges .expression words words' := by
  intro good allowance
  refine .apply fun _ _ => .apply fun n _ => ?_
  refine (h good n).bind fun left middle ⟨m, left', first, inner, operand, chain⟩ => ?_
  have closing : firstKind [TokenKind.rightParen.word] = .rightParen := rfl
  have same {n n' : Nat} (deeper : n ≤ n') (state : Expr) : nearby.rel Eq
      (operatorStep (apply true n) 0 state) (operatorStep (apply true n') 0 state) :=
    nearby.rel_operatorStep (nearby_apply deeper) 0 state
  refine (Ensures.repeats (same (Nat.le_refl n))
    (fun _ _ _ _ => ((apply_carries closing n).onExpressions.operatorStep 0).shorter) left middle).mono ?_
  rintro expr rest ⟨last, middle', repeats, done⟩
  have again (state state' : Expr) (words : List Word) (next : Step Expr) (rest : List Word)
      (h : Reads (operatorStep (apply true n) 0 state) words next rest) :
      Reads (operatorStep (apply true (max n m)) 0 state') words
        (next.restarted (Expr.withFirst state') state') rest := by
    rw [operatorStep_restarted _ 0 state state']
    exact (h.of_nearby (same (Nat.le_max_left n m) state)).map _
  have lifted := chain.mono fun state words next rest h =>
    h.of_nearby (same (Nat.le_max_right n m) state)
  obtain ⟨last', repeats⟩ := repeats.restarted again left'
  have rules := nearby_apply (Nat.le_max_right n m)
  have first := operand.of_nearby (nearby.rel_operand rules (nearby.rel_parenthesis rules true))
  refine ⟨max n m + 2, last', .apply (.apply (first.bind ?_))⟩
  exact (lifted.trans repeats).iterate (again last last' middle' _ rest done)

/-- Specifications with a condition may have another one. -/
theorem Exchanges.querySpec {column name : Identifier} (validColumn : column.Valid)
    (validName : name.Valid) (h : Exchanges .expression words words') :
    Exchanges .querySpec
      (Keyword.SELECT.word :: column.word :: Keyword.FROM.word :: name.word ::
        Keyword.WHERE.word :: words)
      (Keyword.SELECT.word :: column.word :: Keyword.FROM.word :: name.word ::
        Keyword.WHERE.word :: words') := by
  have named : column.word.kind.isIdentifier = true :=
    isIdentifier_of_identifier? validColumn.identifier?
  have other {kind : TokenKind} (rest : List Word) (h : kind.isIdentifier = false) :
      firstKind (column.word :: rest) ≠ kind := firstKind_ne_of_isIdentifier named h
  -- what stands in front of the condition
  have all (rest : List Word) : Reads distinctness (column.word :: rest) false (column.word :: rest) :=
    (Reads.eat_false (other rest rfl)).bind ((Reads.eat_false (other rest rfl)).bind (.pure _ _))
  have list (rest : List Word) : Reads (apply true 6 .selectList)
      (column.word :: Keyword.FROM.word :: rest) [.unnamed (.column ⟨[], column⟩)]
      (Keyword.FROM.word :: rest) :=
    reads_selectList_of_items (other _ rfl) (reads_oneOrMore_singleton
      (reads_columnItem validColumn (show TokenKind.keyword .FROM ∈ afterItem? by decide)) nofun)
  have table (rest : List Word) : Reads (apply true 3 .tableReference)
      (name.word :: Keyword.WHERE.word :: rest) (.table ⟨[], name⟩ none)
      (Keyword.WHERE.word :: rest) :=
    reads_tableReference (reads_plainTable validName
      (show TokenKind.keyword .WHERE ∈ afterTable by decide))
      (show TokenKind.keyword .WHERE ∈ afterReference by decide)
  intro good allowance
  refine .apply fun n _ => ?_
  refine .reads_bind (.expectWord .SELECT _) (.reads_bind (all _) ?_)
  refine .reads_bind (.afterWord_none (other _ rfl)) ?_
  refine ((list _).ensures_apply n).bind fun items rest ⟨_, hrest⟩ => ?_
  subst hrest
  have tables (rest : List Word) (n : Nat) : Ensures (fromClause (apply true n))
      (Keyword.FROM.word :: name.word :: Keyword.WHERE.word :: rest)
      (fun _ rest' => rest' = Keyword.WHERE.word :: rest) good := by
    refine .reads_bind (.expectWord .FROM _) (((table rest).ensures_apply n).bind ?_)
    rintro table _ ⟨_, rfl⟩
    have done : Reads (listStep .comma (apply true n .tableReference) #[table])
        (Keyword.WHERE.word :: rest) (.done #[table]) (Keyword.WHERE.word :: rest) :=
      (Reads.eat_false (by nofun)).bind (.pure _ _)
    exact .reads_bind ((Repeats.refl #[table] _).iterate done) (.pure rfl)
  have moves : moving.rel Eq (fromClause (apply true n)) (fromClause (apply true n)) :=
    moving.rel_then (moving.rel_expectWord _)
      (moving.rel_oneOrMore _ (apply_moving true n .tableReference))
  refine (Ensures.orRecover (tables words n) moves).bind fun tables rest hrest => ?_
  subst hrest
  -- the condition
  have condition : Ensures (condition (apply true n) .WHERE) (Keyword.WHERE.word :: words)
      (fun _ rest => Recognizes .expression words' rest) good :=
    .reads_bind (.eat_true rfl) (.orRecover (.map ((h good n).mono fun _ _ => id))
      (moving.rel_map some (apply_moving true n .expression)))
  refine condition.bind fun rows middle ⟨m, rows', reads⟩ => ?_
  -- what stands behind it, where rules may nest deep enough for both conditions
  let deep := max n (max m 6)
  have enough : n ≤ deep ∧ m ≤ deep ∧ 6 ≤ deep := by omega
  have rel {n' : Nat} (deeper : n ≤ n') := nearby_apply deeper
  have grouping {n' : Nat} (deeper : n ≤ n') : nearby.rel Eq
      (afterWord .GROUP [] (clause [] (groups (apply true n))))
      (afterWord .GROUP [] (clause [] (groups (apply true n')))) :=
    nearby.rel_afterWord _ _ (nearby.rel_clause _ (nearby.rel_then (nearby.rel_expectWord _)
      (nearby.rel_expressions (rel deeper))))
  refine (Ensures.reads_of_nearby (grouping (Nat.le_refl n)) middle).bind
    fun groups middle' grouped => ?_
  refine (Ensures.reads_of_nearby (nearby.rel_condition (rel (Nat.le_refl n)) .HAVING) middle').bind
    fun having rest filtered => .pure ⟨deep + 1, ⟨false, none, [.unnamed (.column ⟨[], column⟩)],
      [.table ⟨[], name⟩ none], some rows', groups, having, [], none⟩, .apply ?_⟩
  have source : Reads (fromClause (apply true deep))
      (Keyword.FROM.word :: name.word :: Keyword.WHERE.word :: words') _
      (Keyword.WHERE.word :: words') :=
    (Reads.expectWord .FROM _).bind (reads_oneOrMore_singleton
      ((table words').of_le (by omega)) (by nofun))
  refine (Reads.expectWord .SELECT _).bind ((all _).bind ?_)
  refine (Reads.afterWord_none (other _ rfl)).bind (((list _).of_le (by omega)).bind ?_)
  refine (Reads.orRecover _ _ source).bind (.bind (.afterWord_some none
    (.orRecover _ _ (.map some (reads.of_le enough.2.1)))) ?_)
  refine (grouped.of_nearby (grouping enough.1)).bind ?_
  exact (filtered.of_nearby (nearby.rel_condition (rel enough.1) .HAVING)).bind (.pure _ rest)

/-- Runs of set operators go on behind an operand for which another one is exchanged. -/
theorem setOperations_exchanged (operand : Nat → Parser QueryBody) (level : Nat)
    (rel : ∀ n m, n ≤ m → nearby.rel Eq (operand n) (operand m))
    (carried : ∀ behind, firstKind behind = .rightParen → ∀ n, Carried behind 0 0 (operand n))
    {n : Nat}
    (first : Ensures (operand n) words (fun _ rest => ∃ m body, Reads (operand m) words' body rest)
      good) :
    Ensures (setOperations (operand n) level) words
      (fun _ rest => ∃ m body, Reads (setOperations (operand m) level) words' body rest) good := by
  refine first.bind fun left middle ⟨m, left', reads⟩ => ?_
  have closing : firstKind [TokenKind.rightParen.word] = .rightParen := rfl
  refine (Ensures.repeats (nearby.rel_setStep (rel n n (Nat.le_refl n)) level)
    (fun _ _ _ _ => (carried_setStep (.inl closing) (carried _ closing n) level).shorter) left middle).mono ?_
  rintro body rest ⟨last, inner, repeats, done⟩
  have again (state state' : QueryBody) (words : List Word) (next : Step QueryBody) (rest : List Word)
      (h : Reads (setStep (operand n) level state) words next rest) :
      Reads (setStep (operand (max n m)) level state') words
        (next.restarted (QueryBody.withFirst state') state') rest := by
    rw [setStep_restarted (operand (max n m)) level state state']
    exact (h.of_nearby (nearby.rel_setStep (rel _ _ (Nat.le_max_left n m)) level state)).map _
  obtain ⟨last', repeats⟩ := repeats.restarted again left'
  have first := reads.of_nearby (rel _ _ (Nat.le_max_right n m))
  exact ⟨max n m, last', first.bind (repeats.iterate (again last last' inner _ rest done))⟩

/-- Operands of set operators that start with `SELECT` are specifications. -/
theorem Exchanges.queryTerm
    (h : Exchanges .querySpec (Keyword.SELECT.word :: words) (Keyword.SELECT.word :: words')) :
    Exchanges .queryTerm (Keyword.SELECT.word :: words) (Keyword.SELECT.word :: words') := by
  intro good allowance
  refine .apply fun n _ => .reads_bind (.check_true rfl) ?_
  refine (h good n).bind fun spec rest ⟨m, spec', reads⟩ => .pure ⟨m + 1, .spec spec', ?_⟩
  exact .apply ((Reads.check_true rfl).bind (reads.bind (.pure _ rest)))

/-- Query bodies begin with an operand. -/
theorem Exchanges.queryBody (h : Exchanges .queryTerm words words') :
    Exchanges .queryBody words words' := by
  intro good allowance
  refine .apply fun n _ => ?_
  have rel (n m : Nat) (deeper : n ≤ m) : nearby.rel Eq
      (setOperations (apply true n .queryTerm) SetOperator.intersect.level)
      (setOperations (apply true m .queryTerm) SetOperator.intersect.level) :=
    nearby.rel_setOperations (apply_nearby deeper .queryTerm) _
  have carried (behind : List Word) (closing : firstKind behind = .rightParen) (n : Nat) :
      Carried behind 0 0 (apply true n .queryTerm) :=
    (apply_carries closing n).carried .queryTerm fun _ => trivial
  have intersections := setOperations_exchanged (fun n => apply true n .queryTerm)
    SetOperator.intersect.level (fun n m deeper => apply_nearby deeper .queryTerm) carried (h good n)
  have unions := setOperations_exchanged
    (fun n => setOperations (apply true n .queryTerm) SetOperator.intersect.level)
    SetOperator.union.level rel
    (fun behind closing n => carried_setOperations (.inl closing) (carried behind closing n) _) intersections
  exact unions.mono fun body rest ⟨m, body', reads⟩ => ⟨m + 1, body', .apply reads⟩

/-- Queries that start with `SELECT` begin with their body. -/
theorem Exchanges.query
    (h : Exchanges .queryBody (Keyword.SELECT.word :: words) (Keyword.SELECT.word :: words')) :
    Exchanges .query (Keyword.SELECT.word :: words) (Keyword.SELECT.word :: words') := by
  intro good allowance
  have other (words : List Word) : firstKind (Keyword.SELECT.word :: words) ≠ .keyword .WITH := nofun
  refine .apply fun n _ => .reads_bind (.afterWord_none (other words)) ?_
  refine (h good n).bind fun body middle ⟨m, body', reads⟩ => ?_
  have keys {n' : Nat} (deeper : n ≤ n') : nearby.rel Eq
      (afterWord .ORDER [] (clause [] (sortKeys (apply true n))))
      (afterWord .ORDER [] (clause [] (sortKeys (apply true n')))) :=
    nearby.rel_afterWord _ _ (nearby.rel_clause _ (nearby.rel_then (nearby.rel_expectWord _)
      (nearby.rel_oneOrMore _ (apply_nearby deeper .sortKey))))
  have offset : nearby.rel Eq (afterWord .OFFSET none (clause none (some <$> rowCount)))
      (afterWord .OFFSET none (clause none (some <$> rowCount))) :=
    nearby.rel_afterWord _ _ (nearby.rel_clause _ (nearby.rel_map some nearby.rel_rowCount))
  refine (Ensures.reads_of_nearby (keys (Nat.le_refl n)) middle).bind fun keys' middle' sorted => ?_
  refine (Ensures.reads_of_nearby offset middle').bind fun offset' rest skipped => .pure ?_
  refine ⟨max n m + 1, assembleQuery [] body' keys' offset', .apply ?_⟩
  refine (Reads.afterWord_none (other words')).bind ((reads.of_le (Nat.le_max_right n m)).bind ?_)
  exact (sorted.of_nearby (keys (Nat.le_max_left n m))).bind (skipped.bind (.pure _ rest))

/-- In a statement with a condition, another condition may be exchanged for it. -/
theorem Exchanges.statement {column name : Identifier} (validColumn : column.Valid)
    (validName : name.Valid) (h : Exchanges .expression words words') :
    Exchanges .query
      (Keyword.SELECT.word :: column.word :: Keyword.FROM.word :: name.word ::
        Keyword.WHERE.word :: words)
      (Keyword.SELECT.word :: column.word :: Keyword.FROM.word :: name.word ::
        Keyword.WHERE.word :: words') :=
  (h.querySpec validColumn validName).queryTerm.queryBody.query

end

end Adql
