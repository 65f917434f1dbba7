import Adql.Grammar.Parser
import Adql.Token.Value

/-!
# The grammar of expressions

The bodies of the rules for expressions.  Each body takes a parser for every rule, so the grammar
is written without recursion; the recursion is tied elsewhere.

Binary operators are read by climbing the levels of the precedence table: a run of operators at a
level reads an operand and goes on as long as an operator at the level or above follows, and each
right operand is a run of its own.  The predicates `IS NULL`, `BETWEEN`, `IN` and `LIKE` take part
as postfix operators.
-/

namespace Adql.Grammar

open Adql.Parser

/-! ### Sets of kinds -/

/-- The words that continue an operand as a predicate. -/
def predicateStart : List TokenKind :=
  [.keyword .IS, .keyword .NOT, .keyword .BETWEEN, .keyword .IN, .keyword .LIKE, .keyword .ILIKE]

/-- The kinds that can start an operand. -/
def operandStart : List TokenKind :=
  [.keyword .NOT, .keyword .TRUE, .keyword .FALSE, .keyword .NULL, .keyword .EXISTS,
   .keyword .CASE, .keyword .CAST, .keyword .COUNT, .keyword .SUM, .keyword .AVG, .keyword .MIN,
   .keyword .MAX, .identifier, .delimitedIdentifier, .integer, .real, .string, .plus, .minus,
   .bitNot, .leftParen]

/-- The kinds that can start a data type. -/
def dataTypeStart : List TokenKind :=
  [.keyword .SMALLINT, .keyword .INTEGER, .keyword .BIGINT, .keyword .REAL, .keyword .DOUBLE,
   .keyword .CHAR, .keyword .VARCHAR, .keyword .TIMESTAMP, .identifier]

/-- Does a word start a query? -/
def startsQuery : TokenKind → Bool
  | .keyword .SELECT | .keyword .WITH => true
  | _ => false

/-- Is it the word of a predicate that `NOT` can negate? -/
def isNegatable : TokenKind → Bool
  | .keyword .BETWEEN | .keyword .IN | .keyword .LIKE | .keyword .ILIKE => true
  | _ => false

/-- Do a token and the one behind it start a predicate? -/
def startsPredicate (kind next : TokenKind) : Bool :=
  match kind with
  | .keyword .IS => true
  | .keyword .NOT => isNegatable next
  | kind => isNegatable kind

/-- Does the run of opening parentheses at the cursor end in front of a query? -/
def parenthesesOpenQuery (kinds : List TokenKind) : Bool :=
  match kinds.dropWhile (· = .leftParen) with
  | [] => false
  | kind :: _ => startsQuery kind

/-! ### Names -/

/-- A regular or delimited name. -/
def identifier : Parser Identifier := do
  if ← check .identifier then
    return .regular (← advance).lexeme
  if ← check .delimitedIdentifier then
    return .delimited (Text.unquoted '"' (← advance).lexeme)
  fail

/-- Names with points between them: the last one is qualified by the others. -/
def qualifiedName : Parser QualifiedName := do
  let parts ← oneOrMore .dot identifier
  match parts.getLast? with
  | some name => pure ⟨parts.dropLast, name⟩
  | none => fail

/-! ### Data types -/

/-- The length of a type, if there is one. -/
def typeLength : Parser (Option UInt32) := do
  if ← eat .leftParen then
    if ← check .integer then
      match (← current).length? with
      | some length =>
        let _ ← advance
        let _ ← expect .rightParen
        pure (some length)
      | none => failExpecting [.integer]
    else fail
  else pure none

/-- The type that a single token names. -/
def simpleType? (token : Token) : Option DataType :=
  match token.kind with
  | .keyword .SMALLINT => some .smallint
  | .keyword .INTEGER => some .integer
  | .keyword .BIGINT => some .bigint
  | .keyword .REAL => some .real
  | .keyword .TIMESTAMP => some .timestamp
  | .identifier =>
    match token.lexeme.toUpper with
    | "POINT" => some .point
    | "CIRCLE" => some .circle
    | "POLYGON" => some .polygon
    | _ => none
  | _ => none

/-- The target of a conversion. -/
def dataType : Parser DataType := do
  let token ← current
  match token.kind with
  | .keyword .DOUBLE =>
    let _ ← advance
    expectWord .PRECISION
    pure .double
  | .keyword .CHAR =>
    let _ ← advance
    pure (.char (← typeLength))
  | .keyword .VARCHAR =>
    let _ ← advance
    pure (.varchar (← typeLength))
  | _ =>
    match simpleType? token with
    | some type =>
      let _ ← advance
      pure type
    | none => failExpecting dataTypeStart

section

variable (lookahead : Bool) (apply : (rule : Rule) → Parser rule.Result)

/-- A query in parentheses. -/
def parenthesizedQuery : Parser Query :=
  inParentheses (apply .query)

/-- Expressions with commas between them. -/
def expressions : Parser (List Expr) :=
  oneOrMore .comma (apply .expression)

/-! ### Predicates -/

/-- What follows the word `BETWEEN`. -/
def betweenTail (operand : Expr) (negated : Bool) (level : Nat) : Parser Expr := do
  let low ← apply (.operators level)
  expectWord .AND
  let high ← apply (.operators level)
  pure (.between operand low high negated)

/-- What follows the word `IN`: a query, or a list of expressions. -/
def inTail (operand : Expr) (negated : Bool) : Parser Expr := do
  let _ ← expect .leftParen
  if startsQuery (← currentKind) then
    let query ← apply .query
    let _ ← expect .rightParen
    pure (.inQuery operand query negated)
  else
    let items ← expressions apply
    let _ ← expect .rightParen
    pure (.inList operand items negated)

/-- What follows the word `LIKE` or `ILIKE`. -/
def likeTail (operand : Expr) (negated caseInsensitive : Bool) (level : Nat) : Parser Expr := do
  let pattern ← apply (.operators level)
  let escape ← afterWord .ESCAPE none (some <$> apply (.operators level))
  pure (.like operand pattern escape negated caseInsensitive)

/-- The postfix part of a predicate; its operands bind at a level or tighter. -/
def predicateTail (operand : Expr) (level : Nat) : Parser Expr := do
  if ← eatWord .IS then
    let negated ← eatWord .NOT
    expectWord .NULL
    return .isNull operand negated
  let negated ← eatWord .NOT
  if ← eatWord .BETWEEN then
    return ← betweenTail apply operand negated level
  if ← eatWord .IN then
    return ← inTail apply operand negated
  if ← eatWord .LIKE then
    return ← likeTail apply operand negated false level
  if ← eatWord .ILIKE then
    return ← likeTail apply operand negated true level
  fail

/-! ### Calls -/

/-- The argument of an aggregate function behind its opening parenthesis: everything, or one
expression, whose repetitions may be left out. -/
def aggregateArgument (word : Keyword) : Parser (Expr × Bool) := do
  if ← (if word = .COUNT then eat .star else pure false) then
    return (.wildcard [], false)
  if ← eatWord .DISTINCT then
    return (← apply .expression, true)
  let _ ← eatWord .ALL
  return (← apply .expression, false)

/-- A call of an aggregate function. -/
def aggregate : Parser Expr := do
  match (← current).keyword? with
  | none => fail
  | some word =>
    let _ ← advance
    let _ ← expect .leftParen
    let (argument, distinct) ← aggregateArgument apply word
    let _ ← expect .rightParen
    pure (.call (.regular word.spelling) [argument] distinct)

/-- The arguments of a call; there may be none. -/
def callArguments : Parser (List Expr) := do
  if ← check .rightParen then pure [] else expressions apply

/-- A call of any other function but those on geometry. -/
def functionCall : Parser Expr := do
  let name ← identifier
  let _ ← expect .leftParen
  let arguments ← callArguments apply
  let _ ← expect .rightParen
  pure (.call name arguments false)

/-- One more argument of a geometry function.  When an argument is missing, only a comma may
follow; when there are enough, only a parenthesis. -/
def geometryStep (function : Geometry) (arguments : Array Expr) :
    Parser (Step (Array Expr)) := do
  let arguments := arguments.push (← apply .expression)
  if function.needsMore arguments.size then
    let _ ← expect .comma
    return .more arguments
  if ← (if function.acceptsMore arguments.size then eat .comma else pure false) then
    return .more arguments
  let _ ← expect .rightParen
  return .done arguments

/-- A call of a geometry function. -/
def geometryCall (function : Geometry) : Parser Expr := do
  let _ ← advance
  let _ ← expect .leftParen
  let arguments ← iterate (geometryStep apply function) #[]
  pure (.geometry function arguments.toList)

/-! ### Case distinctions and conversions -/

/-- One branch of a case distinction behind its `WHEN`; another `WHEN` starts another branch. -/
def branchStep (branches : Array Branch) : Parser (Step (Array Branch)) := do
  let condition ← apply .expression
  expectWord .THEN
  let result ← apply .expression
  let branches := branches.push ⟨condition, result⟩
  if ← eatWord .WHEN then
    pure (.more branches)
  else
    pure (.done branches)

/-- The value whose cases a distinction distinguishes, if there is one. -/
def caseSubject : Parser (Option Expr) := do
  if ← checkWord .WHEN then pure none else some <$> apply .expression

/-- A case distinction. -/
def caseDistinction : Parser Expr := do
  expectWord .CASE
  let subject ← caseSubject apply
  expectWord .WHEN
  let branches ← iterate (branchStep apply) #[]
  let otherwise ← afterWord .ELSE none (some <$> apply .expression)
  expectWord .END
  pure (.case subject branches.toList otherwise)

/-- A conversion. -/
def conversion : Parser Expr := do
  expectWord .CAST
  inParentheses do
    let operand ← apply .expression
    expectWord .AS
    let target ← apply .dataType
    pure (.cast operand target)

/-! ### Parentheses -/

/-- An expression in parentheses. -/
def parenthesizedExpression : Parser Expr :=
  .paren <$> inParentheses (apply .expression)

/-- A query that stands for a value. -/
def scalarSubquery : Parser Expr :=
  .subquery <$> parenthesizedQuery apply

/-- A test whether a query has rows. -/
def existence : Parser Expr := do
  expectWord .EXISTS
  .exists <$> parenthesizedQuery apply

/-- Tries a parenthesis as an expression first, then as a query. -/
def eitherParenthesis : Parser Expr :=
  firstOf (apply .parenthesizedTrial) (apply .subqueryTrial)

/-- What starts with a parenthesis.  The tokens ahead decide whether it can be an expression, a
query, or both; without a look ahead, both are tried. -/
def parenthesis : Parser Expr := do
  if lookahead then
    let next ← nextKind
    if startsQuery next then
      apply .scalarSubquery
    else if next = .leftParen && parenthesesOpenQuery (← kindsAhead) then
      eitherParenthesis apply
    else
      apply .parenthesized
  else eitherParenthesis apply

/-! ### Operands and operators -/

/-- A name in front of a parenthesis is a call, any other name a column. -/
def nameOrCall : Parser Expr := do
  if (← nextKind) = .leftParen then
    match (← current).geometryFunction? with
    | some function => apply (.geometry function)
    | none => apply .functionCall
  else
    .column <$> qualifiedName

/-- An operand without prefix operator. -/
def primary : Parser Expr := do
  let token ← current
  match token.literal? with
  | some value =>
    let _ ← advance
    pure (.literal value)
  | none =>
    match token.kind with
    | .leftParen => parenthesis lookahead apply
    | .keyword .CASE => apply .case
    | .keyword .CAST => apply .cast
    | .keyword .EXISTS => apply .exists
    | .keyword .COUNT | .keyword .SUM | .keyword .AVG | .keyword .MIN | .keyword .MAX =>
      apply .aggregate
    | .identifier | .delimitedIdentifier => nameOrCall apply
    | _ => failExpecting operandStart

/-- An operand, with a prefix operator if there is one. -/
def operand : Parser Expr := do
  match UnaryOp.ofToken? (← currentKind) with
  | some op =>
    let _ ← advance
    let level := (← precedence).prefixLevel op
    .unary op <$> apply (.operators level)
  | none => primary lookahead apply

/-- The kinds that could have continued a run of operators at a level. -/
def continuations (table : PrecedenceTable) (minLevel : Nat) : List TokenKind :=
  table.infixTokens minLevel ++ if minLevel ≤ table.predicateLevel then predicateStart else []

/-- One more operator of a run: a predicate, or a binary operator with its right operand. -/
def operatorStep (minLevel : Nat) (left : Expr) : Parser (Step Expr) := do
  let table ← precedence
  if startsPredicate (← currentKind) (← nextKind) then
    if table.predicateLevel < minLevel then
      pure (.done left)
    else
      .more <$> predicateTail apply left table.predicate.rightOperandLevel
  else
    match table.ofToken? (← currentKind) with
    | none =>
      noteAll (continuations table minLevel)
      pure (.done left)
    | some (op, binding) =>
      if binding.level < minLevel then
        pure (.done left)
      else
        let _ ← advance
        let right ← apply (.operators binding.rightOperandLevel)
        pure (.more (.binary left op right))

/-- Operands joined by the operators that bind at a level or tighter. -/
def operators (minLevel : Nat) : Parser Expr := do
  let first ← operand lookahead apply
  iterate (operatorStep apply minLevel) first

end

end Adql.Grammar
