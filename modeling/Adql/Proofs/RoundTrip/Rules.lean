import Adql.Proofs.RoundTrip.Kept
import Adql.Proofs.RoundTrip.Outcomes

/-!
# What rules keep

For each rule: the words of what it yields (`Rule.words`), what may stand behind them
(`Rule.mayFollow`), and how they start (`Rule.sameStart`).  `Preserved` puts these together, and
`KeepsRules` says that parsers of all rules preserve what they read.

A run of operators ends where the next word binds looser, so what may stand behind it depends on
what stood behind it in the source (`Follow`): whatever ended the run there has to end it again.
-/

namespace Adql

open Adql.Parser Adql.Grammar

/-! ### What follows a run of operators -/

/-- No run of operators at the level goes on in front of the words. -/
def Stops (level : Nat) (words : List Word) (table : PrecedenceTable := .adql) : Prop :=
  if startsPredicate (firstKind words) (secondKind words) then table.predicateLevel < level
  else ∀ op binding, table.ofToken? (firstKind words) = some (op, binding) → binding.level < level

/-- A run stops in front of a predicate exactly if predicates bind looser. -/
theorem stops_iff_of_predicate {level : Nat} {words : List Word} {table : PrecedenceTable}
    (predicate : startsPredicate (firstKind words) (secondKind words) = true) :
    Stops level words table ↔ table.predicateLevel < level := by
  unfold Stops
  rw [if_pos predicate]

/-- Where no predicate follows, a run stops exactly if an operator that follows binds looser. -/
theorem stops_iff_of_no_predicate {level : Nat} {words : List Word} {table : PrecedenceTable}
    (noPredicate : ¬startsPredicate (firstKind words) (secondKind words) = true) :
    Stops level words table ↔ ∀ op binding,
      table.ofToken? (firstKind words) = some (op, binding) → binding.level < level := by
  unfold Stops
  rw [if_neg noPredicate]

/-- What stands behind a run of operators ends it wherever the rest of the source ended it. -/
structure Follow (rest behind : List Word) : Prop where
  /-- No operator goes on with a run that ended in the source. -/
  stops : ∀ level, Stops level rest → Stops level behind
  /-- No escape clause is added to a pattern. -/
  escape : firstKind behind = .keyword .ESCAPE → firstKind rest = .keyword .ESCAPE
  /-- No name goes on. -/
  dot : firstKind behind ≠ .dot
  /-- No name becomes a call. -/
  leftParen : firstKind behind ≠ .leftParen

/-- Does a kind end an expression wherever it stands? -/
def endsExpression (kind : TokenKind) : Bool :=
  (BinaryOp.ofToken? kind).isNone && !startsPredicate kind .eof && kind ≠ .keyword .NOT &&
    kind ≠ .keyword .ESCAPE && kind ≠ .dot && kind ≠ .leftParen

/-- Only behind `NOT` it matters what comes next. -/
theorem startsPredicate_of_ne {kind : TokenKind} (h : kind ≠ .keyword .NOT)
    (next next' : TokenKind) : startsPredicate kind next = startsPredicate kind next' := by
  unfold startsPredicate
  split
  · rfl
  · exact absurd rfl h
  · rfl

/-- What ends an expression wherever it stands may follow any run of operators. -/
theorem Follow.of_ends {rest behind : List Word} (h : endsExpression (firstKind behind) = true) :
    Follow rest behind := by
  simp only [endsExpression, Bool.and_eq_true, decide_eq_true_eq, Bool.not_eq_true',
    Option.isNone_iff_eq_none] at h
  obtain ⟨⟨⟨⟨⟨op, predicate⟩, not⟩, escape⟩, dot⟩, paren⟩ := h
  refine ⟨fun level _ => ?_, fun h => absurd h escape, dot, paren⟩
  unfold Stops
  rw [startsPredicate_of_ne not _ .eof, predicate]
  intro _ _ found
  simp [PrecedenceTable.ofToken?, op] at found

/-- What starts like the rest of the source may follow where the rest did. -/
theorem Follow.of_same {rest behind : List Word} (first : firstKind behind = firstKind rest)
    (second : firstKind rest = .keyword .NOT → secondKind behind = secondKind rest)
    (dot : firstKind rest ≠ .dot) (leftParen : firstKind rest ≠ .leftParen) :
    Follow rest behind := by
  refine ⟨fun level h => ?_, fun h => by rwa [← first], by rwa [first], by rwa [first]⟩
  have predicate : startsPredicate (firstKind rest) (secondKind behind) =
      startsPredicate (firstKind rest) (secondKind rest) := by
    by_cases not : firstKind rest = .keyword .NOT
    · rw [second not]
    · exact startsPredicate_of_ne not _ _
  unfold Stops at h ⊢
  rw [first, predicate]
  exact h

/-! ### Starts -/

/-- The kinds that start an operand or a query, parentheses and names apart. -/
def startKinds : List TokenKind :=
  [.keyword .NOT, .keyword .TRUE, .keyword .FALSE, .keyword .NULL, .keyword .EXISTS,
   .keyword .CASE, .keyword .CAST, .keyword .COUNT, .keyword .SUM, .keyword .AVG, .keyword .MIN,
   .keyword .MAX, .integer, .real, .string, .plus, .minus, .bitNot, .keyword .SELECT,
   .keyword .WITH]

/-- The words of an operand or a query start alike: with as many parentheses, and behind these with
a name, qualified or not, or with one and the same kind. -/
inductive SameStart : List Word → List Word → Prop
  | paren {word word' words words'} : word.kind = .leftParen → word'.kind = .leftParen →
      SameStart words words' → SameStart (word :: words) (word' :: words')
  | name {word word' words words'} : word.kind.isIdentifier = true →
      word'.kind.isIdentifier = true →
      word'.token.geometryFunction? = word.token.geometryFunction? →
      (firstKind words = .dot ↔ firstKind words' = .dot) → SameStart (word :: words) (word' :: words')
  | other {word word' words words'} : word.kind ∈ startKinds → word'.kind = word.kind →
      SameStart (word :: words) (word' :: words')

namespace SameStart

variable {words words' behind : List Word}

/-- What follows does not change the start, if it is no point. -/
theorem append (h : SameStart words words') (dot : firstKind behind ≠ .dot) :
    SameStart words (words' ++ behind) := by
  induction h with
  | paren first first' _ ih => exact .paren first first' ih
  | @name word word' words words' first first' function qualified =>
    refine .name first first' function ?_
    cases words' with
    | nil => exact ⟨fun h => absurd (qualified.mp h) nofun, fun h => absurd h dot⟩
    | cons _ _ => exact qualified
  | other first same => exact .other first same

/-- Both start a query behind their parentheses, or none does. -/
theorem parenthesesOpenQuery (h : SameStart words words') (tail tail' : List TokenKind) :
    parenthesesOpenQuery (words'.map (·.kind) ++ tail') =
      parenthesesOpenQuery (words.map (·.kind) ++ tail) := by
  induction h with
  | paren first first' _ ih => simpa [Grammar.parenthesesOpenQuery, first, first'] using ih
  | @name word word' words words' first first' _ _ =>
    have plain {word : Word} (h : word.kind.isIdentifier = true) :
        word.kind ≠ .leftParen ∧ startsQuery word.kind = false := by
      cases hkind : word.kind <;> simp_all [TokenKind.isIdentifier, startsQuery]
    simp [Grammar.parenthesesOpenQuery, plain first, plain first']
  | @other word word' words words' first same =>
    have plain : word.kind ≠ .leftParen := by
      intro h
      rw [h] at first
      simp [startKinds] at first
    simp [Grammar.parenthesesOpenQuery, plain, same]

/-- What stands behind the written words is not their start. -/
theorem firstKind_append (h : SameStart words words') (behind : List Word) :
    firstKind (words' ++ behind) = firstKind words' := by
  cases h <;> rfl

/-- What does not tell the two kinds of names apart sees the same first kind. -/
theorem firstKind_congr {β : Type} (h : SameStart words words') (f : TokenKind → β)
    (names : f .identifier = f .delimitedIdentifier) :
    f (firstKind words') = f (firstKind words) := by
  cases h with
  | paren first first' _ => rw [firstKind_cons, firstKind_cons, first, first']
  | @name word word' _ _ first first' _ _ =>
    have named {kind : TokenKind} (h : kind.isIdentifier = true) : f kind = f .identifier := by
      cases kind with
      | identifier => rfl
      | delimitedIdentifier => exact names.symm
      | _ => cases h
    rw [firstKind_cons, firstKind_cons, named first, named first']
  | other first same => rw [firstKind_cons, firstKind_cons, same]

/-- Both start with a parenthesis, or none does. -/
theorem leftParen_iff (h : SameStart words words') :
    firstKind words' = .leftParen ↔ firstKind words = .leftParen :=
  iff_of_eq (h.firstKind_congr (· = .leftParen) (by simp))

/-- Both start with a reserved word, or none does. -/
theorem keyword_iff (h : SameStart words words') (keyword : Keyword) :
    firstKind words' = .keyword keyword ↔ firstKind words = .keyword keyword :=
  iff_of_eq (h.firstKind_congr (· = .keyword keyword) (by simp))

/-- Both start a query at once, or none does. -/
theorem startsQuery_iff (h : SameStart words words') :
    startsQuery (firstKind words') = startsQuery (firstKind words) :=
  h.firstKind_congr startsQuery rfl

/-- The written words start with a parenthesis, a name, or one of a few other kinds. -/
theorem firstKind_mem (h : SameStart words words') :
    firstKind words' ∈ .leftParen :: .identifier :: .delimitedIdentifier :: startKinds := by
  cases h with
  | paren _ first' _ =>
    rw [firstKind_cons, first']
    exact List.mem_cons_self
  | @name _ word' _ _ _ first' _ _ =>
    rw [firstKind_cons]
    cases hkind : word'.kind <;> simp_all [TokenKind.isIdentifier]
  | other first same =>
    rw [firstKind_cons, same]
    simp [first]

/-- The written words do not start with a kind that starts no operand and no query. -/
theorem firstKind_ne {kind : TokenKind} (h : SameStart words words') (behind : List Word)
    (hkind : kind ∉ .leftParen :: .identifier :: .delimitedIdentifier :: startKinds) :
    firstKind (words' ++ behind) ≠ kind := by
  have mem := h.firstKind_mem
  intro same
  cases words' with
  | nil => cases h
  | cons word words' => exact hkind (same ▸ mem)

/-- A row that starts like the source still does so with other rows behind it. -/
theorem separated {rows : List (List Word)} (h : SameStart words words') :
    SameStart words (separated .comma (words' :: rows)) := by
  cases rows with
  | nil => exact h
  | cons second rows => exact h.append nofun

/-- Behind a parenthesis, the words start alike again. -/
theorem inside (h : SameStart words words') (opening : firstKind words = .leftParen) :
    ∃ word inner word' inner', words = word :: inner ∧ words' = word' :: inner' ∧
      SameStart inner inner' := by
  cases h with
  | paren _ _ inner => exact ⟨_, _, _, _, rfl, rfl, inner⟩
  | name first _ _ _ =>
    rw [firstKind_cons] at opening
    rw [opening] at first
    cases first
  | other first _ =>
    rw [firstKind_cons] at opening
    rw [opening] at first
    exact absurd first (by decide)

/-- Behind a parenthesis, both start a query at once, or none does. -/
theorem startsQuery_second (h : SameStart words words') (opening : firstKind words = .leftParen)
    (behind : List Word) :
    startsQuery (secondKind (words' ++ behind)) = startsQuery (secondKind words) := by
  obtain ⟨_, _, _, _, rfl, rfl, inner⟩ := h.inside opening
  rw [List.cons_append, secondKind_cons, secondKind_cons, inner.firstKind_append,
    inner.startsQuery_iff]

/-- Behind a parenthesis, both start with another one, or none does. -/
theorem leftParen_second (h : SameStart words words') (opening : firstKind words = .leftParen)
    (behind : List Word) :
    secondKind (words' ++ behind) = .leftParen ↔ secondKind words = .leftParen := by
  obtain ⟨_, _, _, _, rfl, rfl, inner⟩ := h.inside opening
  rw [List.cons_append, secondKind_cons, secondKind_cons, inner.firstKind_append,
    inner.leftParen_iff]

/-- A name starts both, and it names the same geometry function, if any. -/
theorem named (h : SameStart words words') (name : (firstKind words).isIdentifier = true) :
    ∃ word inner word' inner', words = word :: inner ∧ words' = word' :: inner' ∧
      word'.kind.isIdentifier = true ∧
      word'.token.geometryFunction? = word.token.geometryFunction? ∧
      (firstKind inner = .dot ↔ firstKind inner' = .dot) := by
  cases h with
  | paren first _ _ =>
    rw [firstKind_cons, first] at name
    cases name
  | name _ first' function dot => exact ⟨_, _, _, _, rfl, rfl, first', function, dot⟩
  | @other word _ _ _ first _ =>
    rw [firstKind_cons] at name
    cases hkind : word.kind with
    | identifier => rw [hkind] at first; exact absurd first (by decide)
    | delimitedIdentifier => rw [hkind] at first; exact absurd first (by decide)
    | _ => rw [hkind] at name; cases name

/-- Words that start alike are there. -/
theorem ne_nil (h : SameStart words words') : words' ≠ [] := by
  cases h <;> exact List.cons_ne_nil _ _

end SameStart

/-! ### Rules -/

/-- The kinds behind a query. -/
def afterQuery : List TokenKind :=
  [.rightParen, .semicolon, .eof]

/-- The kinds behind the body of a query. -/
def afterBody : List TokenKind :=
  .keyword .ORDER :: .keyword .OFFSET :: afterQuery

/-- The kinds behind an operand of a set operator. -/
def afterTerm : List TokenKind :=
  .keyword .UNION :: .keyword .EXCEPT :: .keyword .INTERSECT :: afterBody

/-- The kinds behind an item of a `FROM` clause. -/
def afterReference : List TokenKind :=
  .comma :: .keyword .WHERE :: .keyword .GROUP :: .keyword .HAVING :: afterTerm

/-- The kinds behind a single table. -/
def afterTable : List TokenKind :=
  .keyword .NATURAL :: .keyword .CROSS :: .keyword .JOIN :: .keyword .INNER :: .keyword .LEFT ::
    .keyword .RIGHT :: .keyword .FULL :: .keyword .ON :: .keyword .USING :: afterReference

/-- The kinds behind an item of a select list. -/
def afterItem? : List TokenKind :=
  [.comma, .keyword .FROM]

namespace Rule

/-- The bare words of what a rule yields. -/
def words : (rule : Rule) → rule.Result → List Word
  | .query => Query.words false
  | .queryBody | .queryTerm => QueryBody.words false
  | .querySpec => QuerySpec.words false
  | .selectList => fun items => separated .comma (items.map (SelectItem.words false))
  | .selectItem | .qualifiedWildcard | .derivedColumn => SelectItem.words false
  | .aliasName => fun name => [Keyword.AS.word, name.word]
  | .tableReference | .tablePrimary | .derivedTable | .nestedTable => TableRef.words false
  | .commonTable => CommonTable.words false
  | .sortKey => SortKey.words false
  | .expression | .operators _ | .parenthesized | .parenthesizedTrial | .scalarSubquery
  | .subqueryTrial | .exists | .aggregate | .functionCall | .geometry _ | .case | .cast =>
    Expr.words false
  | .dataType => DataType.words

/-- What may stand behind the words, if the rest of the source stood there. -/
def mayFollow : Rule → List Word → List Word → Prop
  | .query => fun _ behind => firstKind behind ∈ afterQuery
  | .queryBody => fun _ behind => firstKind behind ∈ afterBody
  | .queryTerm | .querySpec => fun _ behind => firstKind behind ∈ afterTerm
  | .selectList => fun _ behind => firstKind behind = .keyword .FROM
  | .selectItem | .derivedColumn => fun _ behind => firstKind behind ∈ afterItem?
  | .tableReference => fun _ behind => firstKind behind ∈ afterReference
  | .tablePrimary => fun _ behind => firstKind behind ∈ afterTable
  | .sortKey => fun _ behind => firstKind behind ∈ [.comma, .keyword .OFFSET] ++ afterQuery
  | .expression => fun _ behind => endsExpression (firstKind behind) = true
  | .operators _ => Follow
  | .dataType => fun _ behind => firstKind behind ≠ .leftParen
  | _ => fun _ _ => True

/-- How the words start. -/
def sameStart : Rule → List Word → List Word → Prop
  | .selectList | .aliasName | .commonTable | .dataType => fun _ _ => True
  | _ => SameStart

/-- Where the rule is applied: calls of some functions are told by their names. -/
def applies : Rule → List Word → Prop
  | .geometry function => fun words =>
    ∃ word rest, words = word :: rest ∧ word.token.geometryFunction? = some function
  | .aggregate => fun words => firstKind words ∈ startKinds
  | _ => fun _ => True

/-- What is known of the value besides. -/
def shape : (rule : Rule) → rule.Result → Prop
  | .querySpec => fun spec => spec.keys = [] ∧ spec.offset = none
  | .queryBody | .queryTerm => fun body => ∀ spec, body = .spec spec →
    spec.keys = [] ∧ spec.offset = none
  | .selectList => fun items => ∀ behind,
    firstKind (separated .comma (items.map (SelectItem.words false)) ++ behind) ∉
      [.keyword .DISTINCT, .keyword .ALL, .keyword .TOP]
  | .functionCall | .geometry _ => fun expr => ∀ behind,
    secondKind (expr.words false ++ behind) = .leftParen
  | _ => fun _ => True

end Rule

/-- What a parser of a rule read is kept, and the words start like the source. -/
structure Preserved (rule : Rule) (parser : Parser rule.Result) (words : List Word)
    (value : rule.Result) (rest : List Word) : Prop where
  /-- The bare words are a way to write what was read. -/
  kept : Kept parser (rule.words value) (rule.mayFollow rest) words value rest
  /-- The bare words start like the source. -/
  start : rule.sameStart words (rule.words value)
  /-- The value has the shape that the rule gives it. -/
  shape : rule.shape value

/-- Parsers of all rules preserve what they read.  An alternative that is given up in the source is
given up in the written words. -/
structure KeepsRules (apply : (rule : Rule) → Parser rule.Result) : Prop where
  /-- What is read is preserved. -/
  preserves : ∀ rule words, rule.applies words →
    Ensures (apply rule) words (Preserved rule (apply rule) words)
  /-- The rules move forward. -/
  moves : ∀ rule, moving.rel Eq (apply rule) (apply rule)
  /-- A rule with a name that fails in one run fails where it stands. -/
  settles : ∀ rule words, rule.name?.isSome = true → Stumbles (apply rule) words →
    Fails (apply rule) words
  /-- A parenthesis that is no expression in the source is none in the written words. -/
  trialFails : ∀ words, Fails (apply .parenthesizedTrial) words →
    Ensures (apply .subqueryTrial) words fun expr _ => ∀ behind,
      Fails (apply .parenthesizedTrial) (expr.words false ++ behind)
  /-- A parenthesis that is no query with a name in the source is none in the written words. -/
  derivedFails : ∀ words, Fails (apply .derivedTable) words →
    Ensures (apply .nestedTable) words fun table _ => ∀ behind,
      Fails (apply .derivedTable) (table.words false ++ behind)
  /-- An item that is no wildcard in the source is none in the written words. -/
  wildcardFails : ∀ words, Fails (apply .qualifiedWildcard) words →
    Ensures (apply .derivedColumn) words fun item _ => ∀ behind, firstKind behind ∈ afterItem? →
      Fails (apply .qualifiedWildcard) (item.words false ++ behind)
  /-- Where there is no name, none is read. -/
  aliasFails : ∀ words behind, Fails (apply .aliasName) words →
    firstKind behind ≠ .keyword .AS → (firstKind behind).isIdentifier = false →
      Fails (apply .aliasName) behind

end Adql
