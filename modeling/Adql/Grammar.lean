import Adql.Grammar.Query
import Adql.Token.Lexer

/-!
# The grammar

The rules tied together, and the parse of a whole statement.

Rules nest as deep as the settings allow.  That allowance is what the recursion of the grammar
goes down on: `Grammar.apply` takes one from it at each rule, and a rule without allowance ends the
parse.

`Grammar.apply` with a look ahead is the grammar that is used; without it, the grammar tries both
readings of every parenthesis.
-/

namespace Adql

open Adql.Parser

namespace Grammar

/-- The body of a rule, from a parser for every rule. -/
def body (lookahead : Bool) (apply : (rule : Rule) → Parser rule.Result) :
    (rule : Rule) → Parser rule.Result
  | .query => query apply
  | .queryBody => queryBody apply
  | .queryTerm => queryTerm apply
  | .querySpec => querySpec apply
  | .selectList => selectList apply
  | .selectItem => selectItem apply
  | .qualifiedWildcard => qualifiedWildcard
  | .derivedColumn => derivedColumn apply
  | .aliasName => aliasName
  | .tableReference => tableReference apply
  | .tablePrimary => tablePrimary apply
  | .derivedTable => derivedTable apply
  | .nestedTable => nestedTable apply
  | .commonTable => commonTable apply
  | .sortKey => sortKey apply
  | .expression => apply (.operators 0)
  | .operators minLevel => operators lookahead apply minLevel
  | .parenthesized => parenthesizedExpression apply
  | .parenthesizedTrial => apply .parenthesized
  | .scalarSubquery => scalarSubquery apply
  | .subqueryTrial => apply .scalarSubquery
  | .exists => existence apply
  | .aggregate => aggregate apply
  | .functionCall => functionCall apply
  | .geometry function => geometryCall apply function
  | .case => caseDistinction apply
  | .cast => conversion apply
  | .dataType => dataType

/-- The application of a rule with a name is counted. -/
def countRule (rule : Rule) : Parser Unit :=
  if rule.name?.isSome then countInvocation else pure ()

/-- Applies a rule that may nest so many levels deep. -/
def apply (lookahead : Bool) : Nat → (rule : Rule) → Parser rule.Result
  | 0, rule => do
    countRule rule
    refuseDepth
  | allowance + 1, rule => do
    countRule rule
    nested rule (body lookahead (apply lookahead allowance) rule)

/-- Applies a rule in a session, as deep as the settings allow. -/
def applyRule (rule : Rule) : Parser rule.Result := do
  apply true (← get).settings.maxDepth rule

end Grammar

/-- What comes of the parse of a statement. -/
structure Outcome where
  /-- The tree, if anything was recognized; it lacks what was skipped. -/
  tree : Option Query
  /-- The diagnostics in the order of the text. -/
  errors : List Diagnostic

namespace Outcome

/-- Is there a tree and no diagnostic? -/
def isClean (outcome : Outcome) : Bool :=
  outcome.errors.isEmpty && outcome.tree.isSome

/-- The tree of a parse without diagnostics, or the diagnostics. -/
def result (outcome : Outcome) : Except (List Diagnostic) Query :=
  match outcome.tree, outcome.errors with
  | some tree, [] => .ok tree
  | _, errors => .error errors

end Outcome

namespace Session

/-- What may follow a query: a semicolon.  Anything else is reported. -/
def finish : Parser Unit := do
  let _ ← eat .semicolon
  if !(← check .eof) then
    modify fun session => session.reporting session.failure

/-- Parses a query and the end of the statement, with a parser for the query.  A limit that ends
the parse leaves no tree. -/
def parseStatement (query : Parser Query) : Parser (Option Query) := fun session =>
  match query session with
  | .ok tree after =>
    if after.halted then .ok none after
    else (do finish; pure (some tree) : Parser (Option Query)) after
  | .error failure after =>
    .ok none (if failure.fatal then after else after.reporting failure)

/-- The diagnostic about more tokens than the settings allow, if there are more.  The end marker
does not count. -/
def tokenLimit? (session : Session) : Option Diagnostic := do
  let limit ← session.settings.maxTokens
  let count := session.cursor.size - 1
  guard (limit < count)
  pure (.atToken (session.cursor.tokenAt limit) (.tooManyTokens count limit))

/-- Parses the rest of the tokens as a statement, with a parser for queries. -/
def parseWith (session : Session) (query : Parser Query) : Outcome :=
  match session.tokenLimit? with
  | some error => ⟨none, [error]⟩
  | none =>
    match parseStatement query session with
    | .ok tree after => ⟨tree, after.errors.toList⟩
    | .error _ after => ⟨none, after.errors.toList⟩

/-- Parses the rest of the tokens as a statement: a query, an optional semicolon, and the end. -/
def parse (session : Session) : Outcome :=
  session.parseWith (Grammar.applyRule .query)

end Session

/-- Parses tokens as a statement. -/
def parseTokens (tokens : List Token) (settings : Settings) : Outcome :=
  (Session.ofTokens tokens settings).parse

/-- Parses a text as a statement, if it can be cut into tokens. -/
def parseText? (text : String) (settings : Settings) : Except LexError Outcome := do
  let tokens ← tokenize text
  pure (parseTokens tokens settings)

/-- Parses a text as a statement.  Where it cannot be cut into tokens, there is one diagnostic and
no tree. -/
def parseText (text : String) (settings : Settings) : Outcome :=
  match parseText? text settings with
  | .ok outcome => outcome
  | .error error => ⟨none, [.lexical error]⟩

end Adql
