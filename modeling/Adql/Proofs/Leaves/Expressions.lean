import Adql.Proofs.Leaves.Accounts
import Adql.Proofs.RoundTrip.Queries

/-!
# Rules for expressions account for leaves

`AccountsRules apply` says that parsers of all rules account for the leaves of what they yield.
From it follows, body by body, that the bodies of the rules for expressions do so as well.
-/

namespace Adql

open Adql.Parser Adql.Grammar

/-! ### Rules -/

namespace Rule

/-- The leaves of what a rule yields. -/
def leaves : (rule : Rule) → rule.Result → List Leaf
  | .query => Query.leaves
  | .queryBody | .queryTerm => QueryBody.leaves
  | .querySpec => QuerySpec.leaves
  | .selectList => SelectItem.leavesList
  | .selectItem | .qualifiedWildcard | .derivedColumn => SelectItem.leaves
  | .aliasName => fun name => [.name name]
  | .tableReference | .tablePrimary | .derivedTable | .nestedTable => TableRef.leaves
  | .commonTable => CommonTable.leaves
  | .sortKey => SortKey.leaves
  | .expression | .operators _ | .parenthesized | .parenthesizedTrial | .scalarSubquery
  | .subqueryTrial | .exists | .aggregate | .functionCall | .geometry _ | .case | .cast =>
    Expr.leaves
  | .dataType => DataType.leaves

/-- The token in front of which a rule is applied: calls of some functions are told by their names.
-/
def starts : Rule → Token → Prop
  | .geometry function => fun token => token.geometryFunction? = some function
  | _ => fun _ => True

/-- What is known of the value besides. -/
def plain : (rule : Rule) → rule.Result → Prop
  | .querySpec => fun spec => spec.keys = [] ∧ spec.offset = none
  | .queryBody | .queryTerm => QueryBody.Plain
  | _ => fun _ => True

end Rule

/-- Parsers of all rules account for the leaves of what they yield. -/
structure AccountsRules (apply : (rule : Rule) → Parser rule.Result) : Prop where
  /-- The leaves of the value are read. -/
  accounts : ∀ rule front, Accounts rule.starts front (apply rule) fun value =>
    front ++ rule.leaves value
  /-- A rule with a name that fails leaves the cursor where the rule began. -/
  returns : ∀ rule, rule.name?.isSome = true → Returns (apply rule)
  /-- Specifications have no sort keys and no offset yet. -/
  plain : ∀ rule, Yields (apply rule) rule.plain

/-! ### Tokens -/

namespace Token

variable {token : Token}

/-- A number of rows is the value of an integer. -/
theorem standsFor_rowCount {count : UInt64} (kind : token.kind = .integer)
    (h : token.rowCount? = some count) : token.StandsFor (.integer count.toNat) := by
  obtain ⟨value, read, hvalue⟩ := Option.bind_eq_some_iff.mp h
  obtain ⟨nonneg, rfl⟩ : 0 ≤ value ∧ value.toInt.toNat.toUInt64 = count := by simpa using hvalue
  have nonneg' : 0 ≤ value.toInt := by simpa [Int64.le_iff_toInt_le] using nonneg
  have bound := toInt_le_maxInteger value
  have same : value.toInt.toNat.toUInt64.toNat = value.toInt.toNat := by
    simp only [maxInteger] at bound
    exact Nat.mod_eq_of_lt (by omega)
  rw [same, Int.toNat_of_nonneg nonneg']
  exact .integer kind read

/-- The length of a type is the value of an integer. -/
theorem standsFor_length {length : UInt32} (kind : token.kind = .integer)
    (h : token.length? = some length) : token.StandsFor (.integer length.toNat) := by
  obtain ⟨value, read, hvalue⟩ := Option.bind_eq_some_iff.mp h
  obtain ⟨⟨nonneg, small⟩, rfl⟩ :
      (0 ≤ value.toInt ∧ value.toInt < UInt32.size) ∧ value.toInt.toNat.toUInt32 = length := by
    simpa using hvalue
  have same : value.toInt.toNat.toUInt32.toNat = value.toInt.toNat := by
    simp only [UInt32.size] at small
    exact Nat.mod_eq_of_lt (by omega)
  rw [same, Int.toNat_of_nonneg nonneg]
  exact .integer kind read

/-- The token of a literal stands for the leaf of the literal, if there is one. -/
theorem leaves_literal {value : Literal} (h : token.literal? = some value) :
    token.Leaves value.leaves := by
  unfold literal? at h
  split at h
  · next kind =>
    obtain ⟨value, read, rfl⟩ := Option.map_eq_some_iff.mp h
    exact (StandsFor.integer kind read).leaves
  · next kind =>
    obtain ⟨value, read, rfl⟩ := Option.map_eq_some_iff.mp h
    exact (StandsFor.real kind read).leaves
  · next kind =>
    cases h
    exact (StandsFor.string kind).leaves
  all_goals first
    | cases h; exact leaves_nil (by rw [isLeaf, ‹token.kind = _›]; rfl)
    | cases h

/-- The token of a geometry function stands for its name. -/
theorem leaves_geometryFunction {function : Geometry}
    (h : token.geometryFunction? = some function) :
    token.Leaves [.geometry function.spelling] := by
  unfold geometryFunction? at h
  split at h
  · next kind =>
    have same : function.spelling = token.lexeme.toUpper := by simpa using List.find?_some h
    rw [same]
    exact (StandsFor.geometry kind).leaves
  · cases h

/-- The token of a type that it names alone stands for the name, if that is no reserved word. -/
theorem leaves_simpleType {type : DataType} (h : simpleType? token = some type) :
    token.Leaves type.leaves := by
  have named {spelling : String} (kind : token.kind = .identifier)
      (same : token.lexeme.toUpper = spelling) : token.Leaves [.geometry spelling] :=
    same ▸ (StandsFor.geometry kind).leaves
  unfold simpleType? at h
  split at h
  case h_6 kind =>
    split at h
    · next same => cases h; exact named kind same
    · next same => cases h; exact named kind same
    · next same => cases h; exact named kind same
    · cases h
  case h_7 => cases h
  all_goals
    cases h
    exact leaves_nil (by rw [isLeaf, ‹token.kind = _›]; rfl)

end Token

/-- The token of a prefix operator is no leaf. -/
theorem UnaryOp.isLeaf_of_ofToken? {kind : TokenKind} {op : UnaryOp} (h : ofToken? kind = some op) :
    kind.isLeaf = false := by
  unfold ofToken? at h
  split at h <;> first | rfl | cases h

/-- The token of an operator between operands is no leaf. -/
theorem PrecedenceTable.isLeaf_of_ofToken? {table : PrecedenceTable} {kind : TokenKind}
    {op : BinaryOp × Binding} (h : table.ofToken? kind = some op) : kind.isLeaf = false := by
  obtain ⟨op', found, _⟩ := Option.bind_eq_some_iff.mp h
  rw [BinaryOp.eq_token_of_ofToken? found]
  cases op' <;> rfl

/-- The name of an aggregate function is reserved, so it has no leaf. -/
theorem Keyword.calledLeaves_regular (keyword : Keyword) :
    (Identifier.regular keyword.spelling).calledLeaves = [] := by
  have reserved : (Identifier.regular keyword.spelling).isReserved = true := by
    simp [Identifier.isReserved, Identifier.regular, ofWord?_spelling]
  rw [Identifier.calledLeaves, if_pos reserved]

section

variable {now : Token → Prop} {front : List Leaf}

/-! ### Names, numbers and types -/

/-- A name is read as a leaf. -/
theorem identifier_accounts : Accounts now front identifier fun name => front ++ [.name name] := by
  refine .check_ite (.advance_bind (fun token => [.name (.regular token.lexeme)])
    (fun token first => ?_) fun _ => .pure rfl) (.check_ite (.advance_bind
      (fun token => [.name (.delimited (Text.unquoted '"' token.lexeme))]) (fun token first => ?_)
        fun _ => .pure rfl) .fail)
  · exact (Token.StandsFor.name (by simp [Token.identifier?, first.2])).leaves
  · exact (Token.StandsFor.name (by simp [Token.identifier?, first.2])).leaves

/-- The name of a function that is no aggregate function is read as its leaf. -/
theorem called_accounts : Accounts now front identifier fun name => front ++ name.calledLeaves := by
  refine .of_unreserved (.check_ite (.advance_bind
    (fun token => (Identifier.regular token.lexeme).calledLeaves) (fun token first => ?_)
      fun _ => .pure rfl) (.check_ite (.advance_bind (fun token => (Identifier.delimited
        (Text.unquoted '"' token.lexeme)).calledLeaves) (fun token first => ?_)
          fun _ => .pure rfl) .fail))
  · have unreserved : (Identifier.regular token.lexeme).isReserved = false := by
      simp [Identifier.isReserved, Identifier.regular, first.1.2 first.2]
    rw [Identifier.calledLeaves, if_neg (by simp [unreserved])]
    exact (Token.StandsFor.name (by simp [Token.identifier?, first.2])).leaves
  · exact (Token.StandsFor.name (by simp [Token.identifier?, first.2])).leaves

/-- Names with separators between them are read as leaves. -/
theorem names_accounts {separator : TokenKind} (plain : separator.isLeaf = false) :
    Accounts now front (oneOrMore separator identifier) fun names => front ++ names.map .name :=
  (Accounts.oneOrMore plain fun _ => identifier_accounts).congr fun names => by
    rw [List.map_eq_flatMap]

/-- A qualified name is read as leaves. -/
theorem qualifiedName_accounts :
    Accounts now front qualifiedName fun name => front ++ name.leaves := by
  refine (names_accounts rfl).bind fun parts => ?_
  cases last : parts.getLast? with
  | none => exact .fail
  | some name =>
    refine .pure ?_
    rw [QualifiedName.leaves, ← List.map_singleton (f := Leaf.name), ← List.map_append,
      List.dropLast_append_getLast? name last]

/-- A number of rows is read as a leaf. -/
theorem rowCount_accounts :
    Accounts now front rowCount fun count => front ++ [.integer count.toNat] := by
  refine .check_ite (.look .current fun token => ?_) .fail
  cases read : token.rowCount? with
  | none => exact .fail
  | some count =>
    refine .advance_bind (fun _ => [.integer count.toNat]) ?_ fun _ => .pure rfl
    rintro _ ⟨⟨_, kind⟩, rfl⟩
    exact (Token.standsFor_rowCount kind read).leaves

/-- The length of a type is read as a leaf, if it is there. -/
theorem typeLength_accounts :
    Accounts now front typeLength fun length => front ++ Leaf.count (length.map UInt32.toNat) := by
  refine .eat_bind rfl
    (.check_ite (.look .current fun token => ?_) .fail) (.pure (List.append_nil _).symm)
  cases read : token.length? with
  | none => exact .failExpecting
  | some length =>
    refine .advance_bind (fun _ => [.integer length.toNat]) ?_ fun _ => .expect_bind rfl (.pure rfl)
    rintro _ ⟨⟨_, kind⟩, rfl⟩
    exact (Token.standsFor_length kind read).leaves

/-- A type is read as its leaves. -/
theorem dataType_accounts : Accounts now front dataType fun type => front ++ type.leaves := by
  refine .look .current fun token => ?_
  have word {keyword : Keyword} (kind : token.kind = .keyword keyword) (first : Token)
      (h : now first ∧ first = token) : first.isLeaf = false := by
    rw [h.2, Token.isLeaf, kind]
    rfl
  split
  · next kind =>
    exact .advance_plain (word kind) fun _ => .expectWord_bind (.pure (List.append_nil _).symm)
  · next kind =>
    exact .advance_plain (word kind) fun _ => typeLength_accounts.bind fun length => .pure rfl
  · next kind =>
    exact .advance_plain (word kind) fun _ => typeLength_accounts.bind fun length => .pure rfl
  · cases found : simpleType? token with
    | none => exact .failExpecting
    | some type =>
      refine .advance_bind (fun _ => type.leaves) ?_ fun _ => .pure rfl
      rintro _ ⟨_, rfl⟩
      exact Token.leaves_simpleType found

end

section

variable {apply : (rule : Rule) → Parser rule.Result} (h : AccountsRules apply)
  {now : Token → Prop} {front : List Leaf} {operand : Expr}

include h

/-! ### Rules that are applied -/

/-- The rules account for their leaves, whatever is known of the current token. -/
theorem AccountsRules.rule (rule : Rule) (starts : rule.starts = fun _ => True) :
    Accounts now front (apply rule) fun value => front ++ rule.leaves value :=
  (h.accounts rule front).mono fun _ _ => starts ▸ trivial

/-- An expression is read as its leaves. -/
theorem expression_accounts :
    Accounts now front (apply .expression) fun expr => front ++ expr.leaves :=
  h.rule .expression rfl

/-- A run of operators is read as its leaves. -/
theorem run_accounts (level : Nat) :
    Accounts now front (apply (.operators level)) fun expr => front ++ expr.leaves :=
  h.rule (.operators level) rfl

/-- A query in parentheses is read as its leaves. -/
theorem parenthesizedQuery_accounts :
    Accounts now front (parenthesizedQuery apply) fun query => front ++ query.leaves :=
  .inParentheses (h.rule .query rfl)

/-- Expressions with commas between them are read as their leaves. -/
theorem expressions_accounts :
    Accounts now front (expressions apply) fun exprs => front ++ Expr.leavesList exprs :=
  (Accounts.oneOrMore rfl fun _ => expression_accounts h).congr fun exprs => by
    rw [Expr.leavesList_eq]

/-! ### Predicates -/

/-- What follows the word `BETWEEN` is read as its leaves. -/
theorem betweenTail_accounts (negated : Bool) (level : Nat) :
    Accounts now (front ++ operand.leaves) (betweenTail apply operand negated level) fun expr =>
      front ++ expr.leaves :=
  (run_accounts h level).bind fun low => .expectWord_bind <|
    (run_accounts h level).bind fun high => .pure (by simp [Expr.leaves])

/-- What follows the word `IN` is read as its leaves. -/
theorem inTail_accounts (negated : Bool) :
    Accounts now (front ++ operand.leaves) (inTail apply operand negated) fun expr =>
      front ++ expr.leaves := by
  refine .expect_bind rfl (.look .currentKind fun _ => .ite (fun _ => ?_) fun _ => ?_)
  · exact (h.rule .query rfl).bind fun query =>
      .expect_bind rfl (.pure (by simp [Expr.leaves, Rule.leaves]))
  · exact (expressions_accounts h).bind fun items =>
      .expect_bind rfl (.pure (by simp [Expr.leaves]))

/-- What follows the word `LIKE` is read as its leaves. -/
theorem likeTail_accounts (negated caseInsensitive : Bool) (level : Nat) :
    Accounts now (front ++ operand.leaves)
      (likeTail apply operand negated caseInsensitive level) fun expr => front ++ expr.leaves := by
  refine (run_accounts h level).bind fun pattern => ?_
  have escape : Accounts AnyToken (front ++ operand.leaves ++ pattern.leaves)
      (afterWord .ESCAPE none (some <$> apply (.operators level))) fun escape =>
        front ++ operand.leaves ++ pattern.leaves ++ Expr.leavesOption escape :=
    .afterWord (.map (run_accounts h level)) (by simp [Expr.leavesOption])
  exact escape.bind fun escape => .pure (by simp [Expr.leaves])

/-- The postfix part of a predicate is read as its leaves. -/
theorem predicateTail_accounts (level : Nat) :
    Accounts now (front ++ operand.leaves) (predicateTail apply operand level) fun expr =>
      front ++ expr.leaves := by
  refine .eatWord_bind ?_ (.eatWord_either fun negated => ?_)
  · exact .eatWord_either fun negated => .expectWord_bind (.pure (by simp [Expr.leaves]))
  · refine .eatWord_bind (betweenTail_accounts h negated level) ?_
    refine .eatWord_bind (inTail_accounts h negated) ?_
    refine .eatWord_bind (likeTail_accounts h negated false level) ?_
    exact .eatWord_bind (likeTail_accounts h negated true level) .fail

/-! ### Calls -/

/-- The argument of an aggregate function is read as its leaves. -/
theorem aggregateArgument_accounts (word : Keyword) :
    Accounts now front (aggregateArgument apply word) fun argument =>
      front ++ argument.1.leaves := by
  have once : Accounts now front (aggregatedExpression apply) fun argument =>
      front ++ argument.1.leaves :=
    .eatWord_bind ((expression_accounts h).bind fun _ => .pure rfl)
      (.eatWord_either fun _ => (expression_accounts h).bind fun _ => .pure rfl)
  rw [aggregateArgument_eq]
  by_cases counts : word = .COUNT
  · rw [if_pos counts]
    exact .eat_bind rfl (.pure (by simp [Expr.leaves])) once
  · rw [if_neg counts]
    exact once

/-- A call of an aggregate function is read as its leaves. -/
theorem aggregate_accounts :
    Accounts now front (aggregate apply) fun expr => front ++ expr.leaves := by
  refine .look .current fun token => ?_
  cases found : token.keyword? with
  | none => exact .fail
  | some word =>
    refine .advance_plain (fun first hfirst => ?_) fun _ => .expect_bind rfl
      ((aggregateArgument_accounts h word).bind fun argument => .expect_bind rfl (.pure ?_))
    · obtain ⟨_, rfl⟩ := hfirst
      rw [Token.isLeaf, Token.keyword?_eq_some.mp found]
      rfl
    · simp [Expr.leaves, Expr.leavesList, word.calledLeaves_regular]

/-- The arguments of a call are read as their leaves. -/
theorem callArguments_accounts :
    Accounts now front (callArguments apply) fun arguments => front ++ Expr.leavesList arguments :=
  .check_ite (.pure (by simp [Expr.leavesList])) (expressions_accounts h)

/-- A call of any other function is read as its leaves. -/
theorem functionCall_accounts :
    Accounts now front (functionCall apply) fun expr => front ++ expr.leaves :=
  Accounts.bind called_accounts fun name =>
    .expect_bind rfl <| (callArguments_accounts h).bind fun arguments =>
    .expect_bind rfl (.pure (by simp [Expr.leaves]))

/-- One more argument of a geometry function is read as its leaves. -/
theorem geometryStep_accounts (function : Geometry) (arguments : Array Expr) :
    Accounts now (front ++ Expr.leavesList arguments.toList) (geometryStep apply function arguments)
      fun next => front ++ Expr.leavesList next.state.toList := by
  refine (expression_accounts h).bind fun argument => ?_
  have held : front ++ Expr.leavesList arguments.toList ++ argument.leaves =
      front ++ Expr.leavesList (arguments.push argument).toList := by
    simp [Expr.leavesList_eq]
  refine .ite (fun _ => .expect_bind rfl (.pure held)) fun _ => ?_
  by_cases more : function.acceptsMore (arguments.push argument).size = true
  · rw [if_pos more]
    exact .eat_bind rfl (.pure held) (.expect_bind rfl (.pure held))
  · rw [if_neg more]
    exact .expect_bind rfl (.pure held)

/-- A call of a geometry function is read as its leaves. -/
theorem geometryCall_accounts (function : Geometry) :
    Accounts (Rule.geometry function).starts front (geometryCall apply function) fun expr =>
      front ++ expr.leaves := by
  refine .advance_bind (fun _ => [.geometry function.spelling])
    (fun token first => Token.leaves_geometryFunction first) fun _ => .expect_bind rfl ?_
  have arguments : Accounts AnyToken (front ++ [.geometry function.spelling])
      (iterate (geometryStep apply function) #[]) fun arguments =>
        front ++ [.geometry function.spelling] ++ Expr.leavesList arguments.toList :=
    .iterate (fun arguments => geometryStep_accounts h function arguments)
      (by simp [Expr.leavesList])
  exact arguments.bind fun arguments => .pure (by simp [Expr.leaves])

/-! ### Case distinctions and conversions -/

/-- A branch of a case distinction is read as its leaves. -/
theorem branchStep_accounts (branches : Array Branch) :
    Accounts now (front ++ Branch.leavesList branches.toList) (branchStep apply branches)
      fun next =>
      front ++ Branch.leavesList next.state.toList := by
  refine (expression_accounts h).bind fun condition => .expectWord_bind <|
    (expression_accounts h).bind fun result => ?_
  have held : front ++ Branch.leavesList branches.toList ++ condition.leaves ++ result.leaves =
      front ++ Branch.leavesList (branches.push ⟨condition, result⟩).toList := by
    simp [Branch.leavesList_eq, Branch.leaves]
  exact .eatWord_bind (.pure held) (.pure held)

/-- A case distinction is read as its leaves. -/
theorem caseDistinction_accounts :
    Accounts now front (caseDistinction apply) fun expr => front ++ expr.leaves := by
  have subject : Accounts AnyToken front (caseSubject apply) fun subject =>
      front ++ Expr.leavesOption subject :=
    .check_ite (.pure (by simp [Expr.leavesOption])) (.map (expression_accounts h))
  refine .expectWord_bind (subject.bind fun subject => .expectWord_bind ?_)
  have branches : Accounts AnyToken (front ++ Expr.leavesOption subject)
      (iterate (branchStep apply) #[]) fun branches =>
        front ++ Expr.leavesOption subject ++ Branch.leavesList branches.toList :=
    .iterate (fun branches => branchStep_accounts h branches) (by simp [Branch.leavesList])
  refine branches.bind fun branches => ?_
  have otherwise : Accounts AnyToken
      (front ++ Expr.leavesOption subject ++ Branch.leavesList branches.toList)
      (afterWord .ELSE none (some <$> apply .expression)) fun otherwise =>
        front ++ Expr.leavesOption subject ++ Branch.leavesList branches.toList ++
          Expr.leavesOption otherwise :=
    .afterWord (.map (expression_accounts h)) (by simp [Expr.leavesOption])
  exact otherwise.bind fun otherwise => .expectWord_bind (.pure (by simp [Expr.leaves]))

/-- A conversion is read as its leaves. -/
theorem conversion_accounts :
    Accounts now front (conversion apply) fun expr => front ++ expr.leaves :=
  .expectWord_bind <| .inParentheses <| (expression_accounts h).bind fun operand =>
    .expectWord_bind <| (h.rule .dataType rfl).bind fun target =>
      .pure (by simp [Expr.leaves, Rule.leaves])

/-! ### Parentheses -/

/-- An expression in parentheses is read as its leaves. -/
theorem parenthesizedExpression_accounts :
    Accounts now front (parenthesizedExpression apply) fun expr => front ++ expr.leaves :=
  .map ((Accounts.inParentheses (expression_accounts h)).congr fun _ => by simp [Expr.leaves])

/-- A query that stands for a value is read as its leaves. -/
theorem scalarSubquery_accounts :
    Accounts now front (scalarSubquery apply) fun expr => front ++ expr.leaves :=
  .map ((parenthesizedQuery_accounts h).congr fun _ => by simp [Expr.leaves])

/-- A test whether a query has rows is read as its leaves. -/
theorem existence_accounts :
    Accounts now front (existence apply) fun expr => front ++ expr.leaves :=
  .expectWord_bind (.map ((parenthesizedQuery_accounts h).congr fun _ => by simp [Expr.leaves]))

/-- A parenthesis that is tried in two ways is read as its leaves. -/
theorem eitherParenthesis_accounts :
    Accounts now front (eitherParenthesis apply) fun expr => front ++ expr.leaves :=
  .firstOf (h.rule .parenthesizedTrial rfl) (h.returns .parenthesizedTrial rfl)
    (h.rule .subqueryTrial rfl)

/-- What starts with a parenthesis is read as its leaves. -/
theorem parenthesis_accounts (lookahead : Bool) :
    Accounts now front (parenthesis lookahead apply) fun expr => front ++ expr.leaves := by
  refine .ite (fun _ => .look .nextKind fun next =>
    .ite (fun _ => h.rule .scalarSubquery rfl) fun _ => ?_)
    fun _ => eitherParenthesis_accounts h
  refine .look .kindsAhead fun kinds => .ite (fun _ => eitherParenthesis_accounts h) fun _ => ?_
  exact h.rule .parenthesized rfl

/-! ### Operands and operators -/

/-- A name is read as a call or a column, and so are its leaves. -/
theorem nameOrCall_accounts :
    Accounts now front (nameOrCall apply) fun expr => front ++ expr.leaves := by
  refine .look .nextKind fun next => .ite (fun _ => .look .current fun token => ?_) fun _ => ?_
  · cases found : token.geometryFunction? with
    | none => exact h.rule .functionCall rfl
    | some function =>
      refine (h.accounts (.geometry function) front).mono fun first hfirst => ?_
      obtain ⟨_, rfl⟩ := hfirst
      exact found
  · exact .map (qualifiedName_accounts.congr fun _ => by rw [Expr.leaves])

/-- An operand without prefix operator is read as its leaves. -/
theorem primary_accounts (lookahead : Bool) :
    Accounts now front (primary lookahead apply) fun expr => front ++ expr.leaves := by
  refine .look .current fun token => ?_
  cases found : token.literal? with
  | some value =>
    refine .advance_bind (fun _ => value.leaves) ?_ fun _ => .pure (by rw [Expr.leaves])
    rintro _ ⟨_, rfl⟩
    exact Token.leaves_literal found
  | none =>
    dsimp only
    split
    · exact parenthesis_accounts h lookahead
    · exact h.rule .case rfl
    · exact h.rule .cast rfl
    · exact h.rule .exists rfl
    iterate 5 exact h.rule .aggregate rfl
    iterate 2 exact nameOrCall_accounts h
    · exact .failExpecting

/-- An operand is read as its leaves. -/
theorem operand_accounts (lookahead : Bool) :
    Accounts now front (Grammar.operand lookahead apply) fun expr => front ++ expr.leaves := by
  refine .look .currentKind fun kind => ?_
  cases found : UnaryOp.ofToken? kind with
  | none => exact primary_accounts h lookahead
  | some op =>
    refine .advance_plain (fun token first => ?_) fun _ => .look .precedence fun table => ?_
    · rw [Token.isLeaf, first.2, UnaryOp.isLeaf_of_ofToken? found]
    · exact .map ((run_accounts h _).congr fun _ => by simp [Expr.leaves])

/-- One more operator of a run is read as its leaves. -/
theorem operatorStep_accounts (level : Nat) (left : Expr) :
    Accounts now (front ++ left.leaves) (operatorStep apply level left) fun next =>
      front ++ next.state.leaves := by
  refine .look .precedence fun table => .look .currentKind fun _ => .look .nextKind fun _ =>
    .ite (fun _ => .ite (fun _ => .pure rfl) fun _ => ?_) fun _ => .look .currentKind fun kind => ?_
  · exact .map (predicateTail_accounts h _)
  · cases found : table.ofToken? kind with
    | none => exact .look (.noteAll _) fun _ => .pure rfl
    | some op =>
      obtain ⟨op, binding⟩ := op
      refine .ite (fun _ => .pure rfl) fun _ => .advance_plain (fun token first => ?_) fun _ => ?_
      · rw [Token.isLeaf, first.2, PrecedenceTable.isLeaf_of_ofToken? found]
      · exact (run_accounts h _).bind fun right => .pure (by simp [Expr.leaves, Step.state])

/-- A run of operators is read as its leaves, if its operands are. -/
theorem operators_accounts (lookahead : Bool) (level : Nat) :
    Accounts now front (operators lookahead apply level) fun expr => front ++ expr.leaves :=
  (operand_accounts h lookahead).bind fun _ =>
    .iterate (fun left => operatorStep_accounts h level left) rfl

end

end Adql
