import Adql.Proofs.Readable.Expressions
import Adql.Proofs.RoundTrip.Preservation

/-!
# What is read as an expression is readable

An expression that was read from a text is readable, and the rest of the text does not go on with it
(`Expr.ReadUpTo`).  The second part is what the first one needs: an operand of an operator leaves no
run of operators open for the operator, because the parser met the operator and did not go on with the
run.

`Rule.Yields` says the same of the values of all rules, and `YieldsTrees` that parsers of all rules
yield such values.  This module holds the bodies of the rules for expressions.
-/

namespace Adql

open Adql.Parser Adql.Grammar

/-! ### Runs that have come to their end -/

/-- The expression is readable, and nothing that is left goes on with it: neither with a run of
operators that it leaves open, nor with a pattern at its end. -/
structure Expr.ReadUpTo (expr : Expr) (rest : List Word) : Prop where
  /-- The expression is readable. -/
  readable : expr.Readable
  /-- No run of operators goes on. -/
  stops : Stops expr.openLevel rest
  /-- No pattern gets an escape clause. -/
  escape : expr.endsInPattern = true → firstKind rest ≠ .keyword .ESCAPE

/-- A run that stops at two levels stops at the looser one. -/
theorem Stops.min {first second : Nat} {words : List Word} (h : Stops first words)
    (h' : Stops second words) : Stops (min first second) words := by
  rcases Nat.le_total first second with le | le
  · rwa [Nat.min_eq_left le]
  · rwa [Nat.min_eq_right le]

/-- A run that stops in front of a binary operator binds tighter than the operator. -/
theorem Stops.binary_lt {level : Nat} {words : List Word} {op : BinaryOp} (h : Stops level words)
    (first : firstKind words = op.token) : PrecedenceTable.adql.binaryLevel op < level := by
  rw [Stops, first, BinaryOp.startsPredicate_token, if_neg Bool.false_ne_true] at h
  exact h op _ (PrecedenceTable.ofToken?_token (PrecedenceTable.binding?_adql op))

namespace Expr.ReadUpTo

variable {expr operand left right : Expr} {words rest : List Word}

/-- An expression that does not end with an operand is read up to wherever it ends. -/
theorem of_atom (readable : expr.Readable) (closed : expr.openLevel = atomLevel)
    (plain : expr.endsInPattern = false) : expr.ReadUpTo rest where
  readable := readable
  stops := closed ▸ stops_of_tight (show 10 < atomLevel by decide) rest
  escape inPattern := absurd (plain.symm.trans inPattern) Bool.false_ne_true

/-- An expression that ends with an operand is read up to where the run of operators ends in which
the operand stands. -/
theorem of_last {level : Nat} {needed : Bool} (readable : expr.Readable)
    (last : operand.ReadUpTo rest) (stops : Stops level rest)
    (open' : expr.openLevel = min level (if needed then atomLevel else operand.openLevel))
    (pattern : expr.endsInPattern = true → operand.endsInPattern = true) : expr.ReadUpTo rest where
  readable := readable
  stops := by
    rw [open']
    refine stops.min ?_
    split
    · exact stops_of_tight (show 10 < atomLevel by decide) rest
    · exact last.stops
  escape inPattern := last.escape (pattern inPattern)

/-- In front of a predicate, the expression leaves no run open that goes on with it. -/
theorem closedAt_predicate (h : expr.ReadUpTo words)
    (predicate : startsPredicate (firstKind words) (secondKind words) = true) :
    expr.ClosedAt predicateLevel predicateLevel :=
  fun _ => (stops_iff_of_predicate predicate).mp h.stops

/-- In front of a binary operator, the expression leaves no run open that goes on with it. -/
theorem closedAt_binary (h : expr.ReadUpTo words) (op : BinaryOp)
    (first : firstKind words = op.token) (minLevel : Nat) :
    expr.ClosedAt minLevel (PrecedenceTable.adql.binaryLevel op) :=
  fun _ => h.stops.binary_lt first

/-- A binary operator with its right operand. -/
theorem binary {op : BinaryOp} (hleft : left.ReadUpTo words) (first : firstKind words = op.token)
    (hright : right.ReadUpTo rest) (stops : Stops (PrecedenceTable.adql.rightLevel op) rest) :
    (Expr.binary left op right).ReadUpTo rest := by
  refine .of_last (.binary hleft.readable (hleft.closedAt_binary op first _) hright.readable) hright stops
    rfl fun inPattern => ?_
  rw [endsInPattern, Bool.and_eq_true] at inPattern
  exact inPattern.2

/-- A prefix operator with its operand. -/
theorem unary {op : UnaryOp} (h : operand.ReadUpTo rest)
    (stops : Stops (PrecedenceTable.adql.prefixLevel op) rest) :
    (Expr.unary op operand).ReadUpTo rest := by
  refine .of_last (.unary h.readable) h stops rfl fun inPattern => ?_
  rw [endsInPattern, Bool.and_eq_true] at inPattern
  exact inPattern.2

end Expr.ReadUpTo

/-! ### What rules yield -/

/-- Where the rule is applied: calls are told by their first word. -/
def Rule.called : Rule → List Word → Prop
  | .aggregate => fun words =>
    ∃ keyword : Keyword, keyword.isAggregate = true ∧ firstKind words = .keyword keyword
  | .functionCall => fun words =>
    ∀ word rest, words = word :: rest → word.token.geometryFunction? = none
  | _ => fun _ => True

/-- What is known of the value of a rule that was read from words, and of the words that are left. -/
def Rule.Yields : (rule : Rule) → List Word → rule.Result → List Word → Prop
  | .query => fun words query _ => query.Readable ∧
    (startsQuery (firstKind words) = true → query.startsBare = true)
  | .queryBody => fun words body _ => body.Readable ∧
    (firstKind words = .keyword .SELECT → body.startsBare = true)
  | .queryTerm => fun words body _ => body.Readable ∧
    (firstKind words = .keyword .SELECT → body.startsBare = true) ∧
    ∀ level, body.looserThan level = false
  | .querySpec => fun _ spec _ => spec.Readable ∧ spec.keys = [] ∧ spec.offset = none
  | .selectList => fun _ items _ => items ≠ [] ∧
    (items ≠ [.unnamed (.wildcard [])] → ∀ item ∈ items, item.Readable)
  | .selectItem | .qualifiedWildcard | .derivedColumn => fun _ item _ => item.Readable
  | .aliasName => fun _ name _ => name.Valid
  | .tableReference | .tablePrimary | .derivedTable | .nestedTable => fun _ table _ => table.Readable
  | .commonTable => fun _ table _ => table.Readable
  | .sortKey => fun _ key _ => key.expr.Readable
  | .operators level => fun _ expr rest => expr.ReadUpTo rest ∧ Stops level rest
  | .expression | .parenthesized | .parenthesizedTrial | .scalarSubquery | .subqueryTrial | .exists
  | .aggregate | .functionCall | .geometry _ | .case | .cast => fun _ expr rest => expr.ReadUpTo rest
  | .dataType => fun _ _ _ => True

/-- Parsers of all rules yield readable trees. -/
structure YieldsTrees (apply : (rule : Rule) → Parser rule.Result) : Prop extends
    KeepsRules apply where
  /-- What is read is readable. -/
  yields : ∀ rule words, rule.called words → Ensures (apply rule) words (rule.Yields words)

/-! ### Names and lists -/

/-- A name that is written as a word for itself is valid. -/
theorem Identifier.valid_of_spelled {name : Identifier} (spelled : name.word.Spelled)
    (again : name.word.token.identifier? = some name) : name.Valid := by
  obtain ⟨value, quoted⟩ := name
  cases quoted with
  | true =>
    obtain ⟨other, nonempty, same⟩ := spelled
    have value_eq : value = other := by
      rw [← Text.unquoted_quoted '"' value, ← Text.unquoted_quoted '"' other]
      exact congrArg _ same
    exact fun empty => nonempty (value_eq.symm.trans empty)
  | false =>
    cases reserved : Keyword.ofWord? value with
    | none =>
      simp only [word, Bool.false_eq_true, ↓reduceIte, reserved] at spelled
      exact spelled
    | some keyword => simp [word, reserved, Token.identifier?, Word.token] at again

/-- A name is valid, and it names the same geometry function as its word. -/
theorem identifier_valid (words : List Word) :
    Ensures identifier words fun name rest => name.Valid ∧
      ∃ word, words = word :: rest ∧
        name.word.token.geometryFunction? = word.token.geometryFunction? := by
  refine (identifier_ensures words).mono fun name rest ⟨word, split, sound, stands⟩ => ?_
  obtain ⟨spelled, again⟩ := sound.name name stands
  exact ⟨name.valid_of_spelled spelled again, word, split,
    geometryFunction?_of_identifier? stands again⟩

/-- One or more names are valid. -/
theorem identifiers_valid (separator : TokenKind) (hkind : separator ≠ .eof) (words : List Word) :
    Ensures (oneOrMore separator identifier) words fun names _ =>
      names ≠ [] ∧ ∀ name ∈ names, name.Valid :=
  .oneOrMore separator hkind moving.rel_identifier
    (fun words => (identifier_valid words).mono fun _ _ known => known.1) words

/-- A qualified name is valid. -/
theorem qualifiedName_valid (words : List Word) :
    Ensures qualifiedName words fun name _ => name.Valid := by
  refine (identifiers_valid .dot nofun words).bind fun parts rest ⟨_, valid⟩ => ?_
  cases hlast : parts.getLast? with
  | none => exact .fail
  | some name =>
    refine .pure ?_
    obtain ⟨qualifier, rfl⟩ := List.getLast?_eq_some_iff.mp hlast
    rw [QualifiedName.Valid, List.dropLast_concat]
    exact valid

/-- Names in parentheses are valid. -/
theorem nameList_valid (words : List Word) :
    Ensures nameList words fun names _ => names ≠ [] ∧ ∀ name ∈ names, name.Valid :=
  .expect_bind nofun fun _ inner _ _ => (identifiers_valid .comma nofun inner).bind
    fun _ _ valid => .expect_bind nofun fun _ _ _ _ => .pure valid

/-- A name that is given with or without the word for it is valid. -/
theorem aliasName_valid (words : List Word) : Ensures aliasName words fun name _ => name.Valid := by
  have valid (words : List Word) : Ensures identifier words fun name _ => name.Valid :=
    (identifier_valid words).mono fun _ _ known => known.1
  exact .eatWord_bind (fun _ inner _ _ => valid inner) fun _ => valid words

/-- A number of rows can be written and read. -/
theorem rowCount_readable (words : List Word) :
    Ensures rowCount words fun count _ => CountReadable (some count) := by
  refine .check_ite nofun (fun word rest split _ => ?_) fun _ => .fail
  subst split
  refine .current_bind fun token _ _ => ?_
  cases hcount : token.rowCount? with
  | none => exact .fail
  | some count =>
    refine .advance_bind fun _ _ _ => .pure ?_
    rintro _ ⟨⟩
    exact rowCount_sound hcount

/-- A repetition keeps its invariant until it is done; that each step leaves fewer words is known
apart. -/
theorem Ensures.iterate_shorter {σ : Type} {step : σ → Parser (Step σ)} {start : σ}
    {words : List Word} {I D : σ → List Word → Prop} {good : Word → Prop}
    (shorter : ∀ state words, Ensures (step state) words
      (AfterStep (fun _ rest => rest.length < words.length) fun _ _ => True) good)
    (hstart : I start words)
    (h : ∀ state words, I state words → Ensures (step state) words (AfterStep I D) good) :
    Ensures (Parser.iterate step start) words D good := by
  refine .iterate hstart fun state words held => ?_
  refine ((h state words held).and (shorter state words)).mono fun next rest ⟨known, less⟩ => ?_
  cases next with
  | more state => exact ⟨known, less⟩
  | done state => exact known

section

variable {apply : (rule : Rule) → Parser rule.Result} (trees : YieldsTrees apply)

include trees

/-- An expression is readable. -/
theorem expression_readable (words : List Word) :
    Ensures (apply .expression) words fun expr _ => expr.Readable :=
  (trees.yields .expression words trivial).mono fun _ _ known => Expr.ReadUpTo.readable known

/-- A run of operators is readable, and comes to its end. -/
theorem run_yields (level : Nat) (words : List Word) :
    Ensures (apply (.operators level)) words fun expr rest => expr.ReadUpTo rest ∧ Stops level rest :=
  trees.yields (.operators level) words trivial

/-- Expressions with commas between them are readable. -/
theorem expressions_readable (words : List Word) :
    Ensures (expressions apply) words fun exprs _ => exprs ≠ [] ∧ ∀ expr ∈ exprs, expr.Readable :=
  .oneOrMore .comma nofun (trees.moves .expression) (expression_readable trees) words

/-- A query in parentheses is readable. -/
theorem parenthesizedQuery_readable (words : List Word) :
    Ensures (parenthesizedQuery apply) words fun query _ => query.Readable :=
  .expect_bind nofun fun _ inner _ _ => (trees.yields .query inner trivial).bind
    fun _ _ known => .expect_bind nofun fun _ _ _ _ => .pure known.1

/-! ### Predicates -/

section

variable {operand : Expr} (readable : operand.Readable)
  (closed : operand.ClosedAt predicateLevel predicateLevel) (negated : Bool) (words : List Word)

include readable closed

/-- What follows the word `BETWEEN` makes a readable predicate. -/
theorem betweenTail_yields :
    Ensures (betweenTail apply operand negated (predicateLevel + 1)) words
      fun expr rest => expr.ReadUpTo rest := by
  refine (run_yields trees _ words).bind fun low middle ⟨hlow, _⟩ => ?_
  refine .expectWord_bind fun word inner split hkind => ?_
  subst split
  refine (run_yields trees _ inner).bind fun high rest ⟨hhigh, stops⟩ => .pure ?_
  have closedLow := hlow.closedAt_binary .and hkind (predicateLevel + 1)
  refine .of_last (.between readable closed hlow.readable closedLow hhigh.readable) hhigh stops rfl ?_
  intro inPattern
  rw [Expr.endsInPattern, Bool.and_eq_true] at inPattern
  exact inPattern.2

/-- What follows the word `IN` makes a readable predicate. -/
theorem inTail_yields :
    Ensures (inTail apply operand negated) words fun expr rest => expr.ReadUpTo rest := by
  refine .expect_bind nofun fun _ inner _ _ => .reads_bind (.currentKind inner) ?_
  refine .ite (fun isQuery => ?_) fun _ => ?_
  · refine (trees.yields .query inner trivial).bind fun query middle ⟨hquery, bare⟩ => ?_
    refine .expect_bind nofun fun _ rest _ _ => .pure ?_
    exact .of_atom (.inQuery readable closed hquery (bare isQuery)) rfl rfl
  · refine (expressions_readable trees inner).bind fun items middle ⟨nonempty, hitems⟩ => ?_
    refine .expect_bind nofun fun _ rest _ _ => .pure ?_
    exact .of_atom (.inList readable closed nonempty hitems) rfl rfl

/-- What follows the word `LIKE` or `ILIKE` makes a readable predicate. -/
theorem likeTail_yields (caseInsensitive : Bool) :
    Ensures (likeTail apply operand negated caseInsensitive (predicateLevel + 1)) words
      fun expr rest => expr.ReadUpTo rest := by
  refine (run_yields trees _ words).bind fun pattern middle ⟨hpattern, stops⟩ => ?_
  have escape : Ensures (afterWord .ESCAPE none (some <$> apply (.operators (predicateLevel + 1))))
      middle fun escape? rest =>
        (escape? = none ∧ rest = middle ∧ firstKind middle ≠ .keyword .ESCAPE) ∨
        ∃ text, escape? = some text ∧ firstKind middle = .keyword .ESCAPE ∧ text.ReadUpTo rest ∧
          Stops (predicateLevel + 1) rest := by
    refine .afterWord (fun word inner split hkind => ?_) fun missed => .inl ⟨rfl, rfl, missed⟩
    subst split
    exact .map ((run_yields trees _ inner).mono fun text rest ⟨htext, stops⟩ =>
      .inr ⟨text, rfl, hkind, htext, stops⟩)
  refine escape.bind fun escape? rest known => .pure ?_
  rcases known with ⟨rfl, rfl, missed⟩ | ⟨text, rfl, first, htext, stops⟩
  · have like : (Expr.like operand pattern none negated caseInsensitive).Readable :=
      .like readable closed hpattern.readable nofun nofun
    refine ⟨like, stops.min ?_, fun _ => missed⟩
    split
    · exact stops_of_tight (show 10 < atomLevel by decide) rest
    · exact hpattern.stops
  · have plain : pattern.endsInPattern = false :=
      Bool.eq_false_iff.mpr fun inPattern => hpattern.escape inPattern first
    refine .of_last (.like readable closed hpattern.readable ?_ fun _ _ => plain) htext stops rfl ?_
    · rintro _ ⟨⟩
      exact htext.readable
    · intro inPattern
      rw [Expr.endsInPattern, Bool.and_eq_true] at inPattern
      exact inPattern.2

/-- A predicate that can be negated is readable. -/
theorem negatableTail_yields :
    Ensures (negatableTail apply operand (predicateLevel + 1) negated) words
      fun expr rest => expr.ReadUpTo rest := by
  refine .eatWord_bind (fun _ inner _ _ => ?_) fun _ => ?_
  · exact betweenTail_yields trees readable closed negated inner
  refine .eatWord_bind (fun _ inner _ _ => ?_) fun _ => ?_
  · exact inTail_yields trees readable closed negated inner
  refine .eatWord_bind (fun _ inner _ _ => ?_) fun _ => ?_
  · exact likeTail_yields trees readable closed negated inner false
  refine .eatWord_bind (fun _ inner _ _ => ?_) fun _ => .fail
  exact likeTail_yields trees readable closed negated inner true

omit negated in
/-- A predicate is readable. -/
theorem predicateTail_yields :
    Ensures (predicateTail apply operand (predicateLevel + 1)) words
      fun expr rest => expr.ReadUpTo rest := by
  rw [predicateTail_eq]
  have eaten (keyword : Keyword) (words : List Word) :
      Ensures (eatWord keyword) words fun _ _ => True :=
    .of_nearby (nearby.rel_eat _) words
  refine .eatWord_bind (fun _ inner _ _ => ?_) fun _ => ?_
  · refine (eaten .NOT inner).bind fun negated middle _ => .expectWord_bind fun _ rest _ _ => .pure ?_
    exact .of_atom (.isNull readable closed) rfl rfl
  · refine (eaten .NOT words).bind fun negated middle _ => ?_
    exact negatableTail_yields trees readable closed negated middle

end

/-! ### Calls -/

/-- The argument of an aggregate function is everything that is counted, or it is readable. -/
theorem aggregateArgument_readable (word : Keyword) (words : List Word) :
    Ensures (aggregateArgument apply word) words fun argument _ =>
      argument.1.Readable ∨ argument = (.wildcard [], false) ∧ word = .COUNT := by
  have value (distinct : Bool) (words : List Word) :
      Ensures (do return (← apply .expression, distinct)) words fun argument _ =>
        argument.1.Readable ∨ argument = (.wildcard [], false) ∧ word = .COUNT :=
    (expression_readable trees words).bind fun _ _ readable => .pure (.inl readable)
  have aggregated (words : List Word) : Ensures (aggregatedExpression apply) words
      fun argument _ => argument.1.Readable ∨ argument = (.wildcard [], false) ∧ word = .COUNT := by
    refine .eatWord_bind (fun _ inner _ _ => value true inner) fun _ => ?_
    exact .eatWord_bind (fun _ inner _ _ => value false inner) fun _ => value false words
  rw [aggregateArgument_eq]
  by_cases counts : word = .COUNT
  · simp only [if_pos counts]
    exact .eat_bind nofun (fun _ _ _ _ => .pure (.inr ⟨rfl, counts⟩)) fun _ => aggregated words
  · simp only [if_neg counts]
    exact .reads_bind (.pure false words) (aggregated words)

/-- A call of an aggregate function is readable. -/
theorem aggregate_yields {words : List Word} (called : Rule.called .aggregate words) :
    Ensures (aggregate apply) words fun expr rest => expr.ReadUpTo rest := by
  obtain ⟨keyword, aggregates, first⟩ := called
  refine .current_bind fun token hkind _ => ?_
  rw [Token.keyword?_eq_some.mpr (hkind.trans first)]
  obtain ⟨word, inner, rfl, _⟩ := exists_cons_of_firstKind (by nofun) first
  refine .advance_bind fun _ _ _ => .expect_bind nofun fun _ inner' _ _ => ?_
  refine (aggregateArgument_readable trees keyword inner').bind fun argument middle known => ?_
  refine .expect_bind nofun fun _ rest _ _ => .pure ?_
  rcases known with readable | ⟨rfl, rfl⟩
  · exact .of_atom (.aggregate aggregates readable) rfl rfl
  · exact .of_atom .countAll rfl rfl

/-- A call of a function is readable. -/
theorem functionCall_yields {words : List Word} (called : Rule.called .functionCall words) :
    Ensures (functionCall apply) words fun expr rest => expr.ReadUpTo rest := by
  have arguments (words : List Word) : Ensures (callArguments apply) words fun arguments _ =>
      ∀ argument ∈ arguments, argument.Readable := by
    refine .check_ite nofun (fun _ _ _ _ => .pure (List.forall_mem_nil _)) fun _ => ?_
    exact (expressions_readable trees words).mono fun _ _ known => known.2
  refine (identifier_valid words).bind fun name inner ⟨valid, word, split, same⟩ => ?_
  have plain := same.trans (called word inner split)
  refine .expect_bind nofun fun _ inner' _ _ => ?_
  refine (arguments inner').bind fun arguments middle readable => ?_
  refine .expect_bind nofun fun _ rest _ _ => .pure ?_
  exact .of_atom (.call valid plain readable) rfl rfl

/-- A call of a geometry function is readable. -/
theorem geometryCall_yields (function : Geometry) (words : List Word) :
    Ensures (geometryCall apply function) words fun expr rest => expr.ReadUpTo rest := by
  refine .advance_tail_bind fun _ => ?_
  refine .expect_bind nofun fun _ inner _ _ => ?_
  refine .bind (P := fun arguments _ => function.Admits arguments.toList.length ∧
    ∀ argument ∈ arguments.toList, argument.Readable) ?_ fun arguments rest known => .pure ?_
  · refine .iterate_shorter (I := fun arguments _ => function.acceptsMore arguments.size = true ∧
      ∀ argument ∈ arguments.toList, argument.Readable) (fun arguments words => ?_) ⟨?_, nofun⟩ ?_
    · refine (geometryStep_kept trees.toKeepsRules function arguments words).mono fun step rest h => ?_
      cases step with
      | more next => exact h.choose_spec.2.1
      | done final => trivial
    · cases function <;> rfl
    intro arguments words ⟨accepted, held⟩
    refine (expression_readable trees words).bind fun argument middle readable => ?_
    have size : (arguments.push argument).size = arguments.size + 1 := Array.size_push ..
    have all : ∀ other ∈ (arguments.push argument).toList, other.Readable := by
      rw [Array.toList_push]
      exact List.forall_mem_append.mpr ⟨held, List.forall_mem_singleton.mpr readable⟩
    have last (enough : function.needsMore (arguments.push argument).size = false) :
        function.Admits (arguments.push argument).toList.length := by
      rw [Array.length_toList, size]
      exact Geometry.admits_of_acceptsMore accepted (size ▸ enough)
    refine .ite (fun needed => ?_) fun enough => ?_
    · exact .expect_bind nofun fun _ _ _ _ =>
        .pure ⟨Geometry.acceptsMore_of_needsMore needed, all⟩
    have enough := Bool.eq_false_iff.mpr enough
    by_cases more : function.acceptsMore (arguments.push argument).size = true
    · simp only [if_pos more]
      refine .eat_bind nofun (fun _ _ _ _ => .pure ⟨more, all⟩) fun _ => ?_
      exact .expect_bind nofun fun _ _ _ _ => .pure ⟨last enough, all⟩
    · simp only [if_neg more]
      refine .reads_bind (.pure false middle) ?_
      exact .expect_bind nofun fun _ _ _ _ => .pure ⟨last enough, all⟩
  · exact .of_atom (.geometry known.1 known.2) rfl rfl

/-! ### Case distinctions and conversions -/

/-- The branches of a case distinction are readable, and there are some. -/
theorem branches_readable (words : List Word) :
    Ensures (iterate (branchStep apply) #[]) words fun branches _ => branches.toList ≠ [] ∧
      ∀ branch ∈ branches.toList, branch.condition.Readable ∧ branch.result.Readable := by
  refine .iterate_shorter (I := fun branches _ =>
    ∀ branch ∈ branches.toList, branch.condition.Readable ∧ branch.result.Readable)
    (fun branches words => ?_) nofun fun branches words held => ?_
  · refine (branchStep_kept trees.toKeepsRules branches words).mono fun step rest h => ?_
    cases step with
    | more next =>
      obtain ⟨_, _, _, shorter, _⟩ := h
      exact shorter
    | done final => trivial
  refine (expression_readable trees words).bind fun condition middle hcondition => ?_
  refine .expectWord_bind fun _ inner _ _ => ?_
  refine (expression_readable trees inner).bind fun result middle' hresult => ?_
  have all : ∀ branch ∈ (branches.push ⟨condition, result⟩).toList,
      branch.condition.Readable ∧ branch.result.Readable := by
    rw [Array.toList_push]
    exact List.forall_mem_append.mpr ⟨held, List.forall_mem_singleton.mpr ⟨hcondition, hresult⟩⟩
  refine .eatWord_bind (fun _ _ _ _ => .pure all) fun _ => .pure ⟨?_, all⟩
  rw [Array.toList_push]
  exact List.concat_ne_nil _ _

/-- A case distinction is readable. -/
theorem caseDistinction_yields (words : List Word) :
    Ensures (caseDistinction apply) words fun expr rest => expr.ReadUpTo rest := by
  have optional (words : List Word) : Ensures (some <$> apply .expression) words
      fun value? _ => ∀ value ∈ value?, value.Readable := by
    refine .map ((expression_readable trees words).mono ?_)
    rintro value _ readable _ ⟨⟩
    exact readable
  have subject (words : List Word) : Ensures (caseSubject apply) words
      fun value? _ => ∀ value ∈ value?, value.Readable :=
    .check_ite nofun (fun _ _ _ _ => .pure nofun) fun _ => optional words
  have otherwise (words : List Word) :
      Ensures (afterWord .ELSE none (some <$> apply .expression)) words
        fun value? _ => ∀ value ∈ value?, value.Readable :=
    .afterWord (fun _ inner _ _ => optional inner) fun _ => nofun
  refine .expectWord_bind fun _ inner _ _ => ?_
  refine (subject inner).bind fun subject middle hsubject => .expectWord_bind fun _ inner' _ _ => ?_
  refine (branches_readable trees inner').bind fun branches middle' ⟨nonempty, hbranches⟩ => ?_
  refine (otherwise middle').bind fun otherwise middle'' hotherwise => ?_
  refine .expectWord_bind fun _ rest _ _ => .pure (.of_atom ?_ rfl rfl)
  exact .case hsubject nonempty (fun branch mem => (hbranches branch mem).1)
    (fun branch mem => (hbranches branch mem).2) hotherwise

/-- A conversion is readable. -/
theorem conversion_yields (words : List Word) :
    Ensures (conversion apply) words fun expr rest => expr.ReadUpTo rest := by
  refine .expectWord_bind fun _ inner _ _ => .expect_bind nofun fun _ inner' _ _ => ?_
  refine .bind (P := fun expr _ => ∀ rest, expr.ReadUpTo rest) ?_ fun expr middle known => ?_
  · refine (expression_readable trees inner').bind fun operand middle readable => ?_
    refine .expectWord_bind fun _ inner'' _ _ => ?_
    refine (trees.yields .dataType inner'' trivial).bind fun target rest _ => .pure fun rest => ?_
    exact .of_atom (.cast readable) rfl rfl
  · exact .expect_bind nofun fun _ rest _ _ => .pure (known rest)

/-! ### Parentheses -/

/-- An expression in parentheses is readable. -/
theorem parenthesizedExpression_yields (words : List Word) :
    Ensures (parenthesizedExpression apply) words fun expr rest => expr.ReadUpTo rest := by
  refine .map (.expect_bind nofun fun _ inner _ _ => ?_)
  refine (expression_readable trees inner).bind fun expr middle readable => ?_
  exact .expect_bind nofun fun _ rest _ _ => .pure (.of_atom (.paren readable) rfl rfl)

/-- A query that stands for a value is readable. -/
theorem scalarSubquery_yields (words : List Word) :
    Ensures (scalarSubquery apply) words fun expr rest => expr.ReadUpTo rest :=
  .map ((parenthesizedQuery_readable trees words).mono fun _ _ readable =>
    .of_atom (.subquery readable) rfl rfl)

/-- A test whether a query has rows is readable. -/
theorem existence_yields (words : List Word) :
    Ensures (existence apply) words fun expr rest => expr.ReadUpTo rest :=
  .expectWord_bind fun _ inner _ _ => .map ((parenthesizedQuery_readable trees inner).mono
    fun _ _ readable => .of_atom (.exists readable) rfl rfl)

/-- What starts with a parenthesis is readable. -/
theorem parenthesis_yields (words : List Word) :
    Ensures (parenthesis true apply) words fun expr rest => expr.ReadUpTo rest := by
  unfold parenthesis
  simp only [↓reduceIte]
  refine .reads_bind (.nextKind words) (.ite (fun _ => trees.yields .scalarSubquery words trivial) ?_)
  refine fun _ => .reads_bind (.kindsAhead words) (.ite (fun _ => ?_) fun _ => ?_)
  · exact .firstOf (trees.yields .parenthesizedTrial words trivial) (trees.settles _ _ rfl)
      fun _ => trees.yields .subqueryTrial words trivial
  · exact trees.yields .parenthesized words trivial

/-! ### Operands and operators -/

/-- A name is readable, whether it is a call or a column. -/
theorem nameOrCall_yields (words : List Word) :
    Ensures (nameOrCall apply) words fun expr rest => expr.ReadUpTo rest := by
  rw [nameOrCall_eq]
  refine .reads_bind (.nextKind words) (.ite (fun _ => ?_) fun _ => ?_)
  · refine .current_bind fun token _ hword => ?_
    cases named : token.geometryFunction? with
    | some function => exact trees.yields (.geometry function) words trivial
    | none =>
      refine trees.yields .functionCall words fun word rest split => ?_
      obtain ⟨same, _⟩ := hword word rest split
      obtain ⟨_, _, _⟩ := token
      cases same
      exact named
  · exact .map ((qualifiedName_valid words).mono fun _ _ valid => .of_atom (.column valid) rfl rfl)

/-- An operand that is told by its kind is readable. -/
theorem primaryOf_yields (words : List Word) :
    Ensures (primaryOf apply (firstKind words)) words fun expr rest => expr.ReadUpTo rest := by
  have aggregates (keyword : Keyword) (h : keyword.isAggregate = true)
      (first : firstKind words = .keyword keyword) :
      Ensures (apply .aggregate) words fun expr rest => expr.ReadUpTo rest :=
    trees.yields .aggregate words ⟨keyword, h, first⟩
  generalize hkind : firstKind words = kind at aggregates
  unfold primaryOf
  split
  · exact parenthesis_yields trees words
  · exact trees.yields .case words trivial
  · exact trees.yields .cast words trivial
  · exact trees.yields .exists words trivial
  · exact aggregates .COUNT rfl rfl
  · exact aggregates .SUM rfl rfl
  · exact aggregates .AVG rfl rfl
  · exact aggregates .MIN rfl rfl
  · exact aggregates .MAX rfl rfl
  · exact nameOrCall_yields trees words
  · exact nameOrCall_yields trees words
  · exact .failExpecting

/-- An operand without prefix operator is readable. -/
theorem primary_yields (words : List Word) :
    Ensures (primary true apply) words fun expr rest => expr.ReadUpTo rest := by
  rw [primary_eq]
  refine .current_bind fun token first hword => ?_
  cases hliteral : token.literal? with
  | some value =>
    have present : token.kind ≠ .eof := fun last => by
      rw [Token.literal?_eq_none (last ▸ by decide)] at hliteral
      cases hliteral
    obtain ⟨word, inner, rfl, _⟩ := exists_cons_of_firstKind present first.symm
    obtain ⟨same, sound⟩ := hword word inner rfl
    have same' : token.word = word.token.word := same
    obtain ⟨spelled, again⟩ := sound.literal value (Token.literal?_of_word same' ▸ hliteral)
    exact .advance_bind fun _ _ _ => .pure (.of_atom (.literal (.unsigned spelled again)) rfl rfl)
  | none =>
    rw [first]
    exact primaryOf_yields trees words

/-- An operand is readable. -/
theorem operand_yields (words : List Word) :
    Ensures (operand true apply) words fun expr rest => expr.ReadUpTo rest := by
  refine .reads_bind (.currentKind words) ?_
  cases UnaryOp.ofToken? (firstKind words) with
  | none => exact primary_yields trees words
  | some op =>
    refine .advance_tail_bind fun _ => ?_
    refine .reads_bind (.precedence _) ?_
    exact .map ((run_yields trees _ _).mono fun _ _ ⟨known, stops⟩ => .unary known stops)

/-- One more operator of a run makes a readable expression, or the run comes to its end. -/
theorem operatorStep_yields (level : Nat) {left : Expr} {words : List Word}
    (hleft : left.ReadUpTo words) :
    Ensures (operatorStep apply level left) words (AfterStep
      (fun next rest => next.ReadUpTo rest)
      (fun final rest => final.ReadUpTo rest ∧ Stops level rest)) := by
  refine .reads_bind (.precedence words) (.reads_bind (.currentKind words)
    (.reads_bind (.nextKind words) (.ite (fun predicate => ?_) fun noPredicate => ?_)))
  · refine .ite (fun looser => .pure ⟨hleft, (stops_iff_of_predicate predicate).mpr looser⟩) fun _ => .map ?_
    exact predicateTail_yields trees hleft.readable (hleft.closedAt_predicate predicate) words
  · refine .reads_bind (.currentKind words) ?_
    cases hop : PrecedenceTable.adql.ofToken? (firstKind words) with
    | none =>
      refine .reads_bind (.noteAll _ words) (.pure ⟨hleft, ?_⟩)
      rw [stops_iff_of_no_predicate noPredicate, hop]
      exact fun _ _ => nofun
    | some found =>
      obtain ⟨op, binding⟩ := found
      refine .ite (fun looser => .pure ⟨hleft, ?_⟩) fun _ => ?_
      · rw [stops_iff_of_no_predicate noPredicate, hop]
        rintro _ _ ⟨⟩
        exact looser
      · obtain ⟨op', token, bound⟩ := Option.bind_eq_some_iff.mp hop
        rw [PrecedenceTable.binding?_adql] at bound
        cases bound
        have first := BinaryOp.eq_token_of_ofToken? token
        refine .advance_tail_bind fun _ => ?_
        refine (run_yields trees _ _).bind fun right rest ⟨hright, stops⟩ => .pure ?_
        exact hleft.binary first hright (PrecedenceTable.rightLevel_adql op ▸ stops)

/-- A run of operators is readable, and comes to its end. -/
theorem operators_yields (level : Nat) (words : List Word) :
    Ensures (operators true apply level) words fun expr rest =>
      expr.ReadUpTo rest ∧ Stops level rest := by
  refine (operand_yields trees words).bind fun first middle hfirst => ?_
  refine .iterate_shorter (I := Expr.ReadUpTo) (fun left words => ?_) hfirst
    fun left words hleft => operatorStep_yields trees level hleft
  refine (operatorStep_kept trees.toKeepsRules level left words).mono fun step rest h => ?_
  cases step with
  | more next => exact h.choose_spec.2.1
  | done final => trivial

end

end Adql
