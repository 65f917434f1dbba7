import Adql.Session

/-!
# Parsers

A parser is an action on a session that yields a value or fails.  This module holds the parsers of
single tokens and the ways to combine parsers: rules, alternatives, optional parts, repetitions,
and clauses after whose failure the parse goes on.

A rule that fails leaves the cursor where the rule began.  Whatever a rule opens (a level of
nesting, an entry in the list of active rules, a query, an alternative that is being tried) is
closed again when it ends, whether it fails or not.
-/

namespace Adql

/-- An action on a session that may fail. -/
abbrev Parser := EStateM Failure Session

namespace Parser

variable {α σ : Type}

/-! ### Tokens -/

/-- The current token. -/
def current : Parser Token := do
  pure (← get).current

/-- The kind of the current token. -/
def currentKind : Parser TokenKind := do
  pure (← current).kind

/-- The kind of the token behind the current one. -/
def nextKind : Parser TokenKind := do
  pure ((← get).cursor.peek 1).kind

/-- The kinds of the tokens from the cursor on. -/
def kindsAhead : Parser (List TokenKind) := do
  pure (← get).cursor.kindsAhead

/-- The number of tokens between the cursor and the final end marker. -/
def remaining : Parser Nat := do
  pure (← get).cursor.remaining

/-- The precedence of the operators. -/
def precedence : Parser PrecedenceTable := do
  pure (← get).settings.precedence

/-- May a failure here be reported and skipped over? -/
def canRecover : Parser Bool := do
  pure (← get).canRecover

/-- Moves behind the current token and yields it. -/
def advance : Parser Token := do
  let token ← current
  modify fun session => { session with cursor := session.cursor.advance }
  pure token

/-- Notes that a kind would have been accepted at the current token. -/
def note (kind : TokenKind) : Parser Unit :=
  modify fun session => session.noting kind

/-- Notes that each of the kinds would have been accepted at the current token. -/
def noteAll (kinds : List TokenKind) : Parser Unit :=
  modify fun session => kinds.foldl Session.noting session

/-- Fails with the notes at the furthest position. -/
def fail : Parser α := do
  throw (← get).failure

/-- Fails for good. -/
def abort : Parser α := do
  throw (← get).fatality

/-- Notes that each of the kinds would have been accepted at the current token, and fails. -/
def failExpecting (kinds : List TokenKind) : Parser α := do
  noteAll kinds
  fail

/-- Is the current token of a kind?  If not, the kind is noted. -/
def check (kind : TokenKind) : Parser Bool := do
  if (← currentKind) = kind then
    pure true
  else
    note kind
    pure false

/-- Moves behind the current token if it is of a kind, and tells whether it was. -/
def eat (kind : TokenKind) : Parser Bool := do
  if ← check kind then
    let _ ← advance
    pure true
  else
    pure false

/-- Moves behind the current token, which has to be of a kind. -/
def expect (kind : TokenKind) : Parser Token := do
  if ← check kind then advance else fail

/-- Is the current token a reserved word? -/
def checkWord (word : Keyword) : Parser Bool :=
  check (.keyword word)

/-- Moves behind the current token if it is a reserved word, and tells whether it was. -/
def eatWord (word : Keyword) : Parser Bool :=
  eat (.keyword word)

/-- Moves behind the current token, which has to be a reserved word. -/
def expectWord (word : Keyword) : Parser Unit := do
  let _ ← expect (.keyword word)

/-- Runs a parser behind a word; without the word there is only a default. -/
def afterWord (word : Keyword) (default : α) (body : Parser α) : Parser α := do
  if ← eatWord word then body else pure default

/-! ### Repetition -/

/-- What a step of a repetition says. -/
inductive Step (σ : Type)
  | more (state : σ)
  | done (state : σ)

/-- Repeats a step at most so many times. -/
def repeatAtMost (step : σ → Parser (Step σ)) : Nat → σ → Parser σ
  | 0, state => pure state
  | count + 1, state => do
    match ← step state with
    | .more state => repeatAtMost step count state
    | .done state => pure state

/-- Repeats a step until it is done.  A step that is not done has moved behind at least one token,
so there cannot be more steps than tokens that are left, and one. -/
def iterate (step : σ → Parser (Step σ)) (start : σ) : Parser σ := do
  repeatAtMost step ((← remaining) + 1) start

/-- One step of a list: if there is a separator, there is another item behind it. -/
def listStep (separator : TokenKind) (item : Parser α) (items : Array α) :
    Parser (Step (Array α)) := do
  if ← eat separator then
    pure (.more (items.push (← item)))
  else
    pure (.done items)

/-- One or more items with separators between them. -/
def oneOrMore (separator : TokenKind) (item : Parser α) : Parser (List α) := do
  let first ← item
  let items ← iterate (listStep separator item) #[first]
  pure items.toList

/-- A parser in front of whose value a token stands, and another one behind it. -/
def between (opening closing : TokenKind) (body : Parser α) : Parser α := do
  let _ ← expect opening
  let value ← body
  let _ ← expect closing
  pure value

/-- A parser in parentheses. -/
def inParentheses (body : Parser α) : Parser α :=
  between .leftParen .rightParen body

/-! ### Rules -/

/-- How many applications of rules there are between two looks at the budget. -/
def budgetInterval : Nat := 64

/-- Has the budget run out?  It is looked at once in an interval. -/
def overBudget (session : Session) : Option Nat :=
  session.settings.ruleBudget.filter fun limit =>
    session.invocations % budgetInterval = 0 && limit < session.invocations

/-- Counts the application of a rule.  A parse that was ended applies no rules. -/
def countInvocation : Parser Unit := do
  if (← get).halted then abort
  else
    modify fun session => { session with invocations := session.invocations + 1 }
    match overBudget (← get) with
    | some limit =>
      modify fun session => session.haltedBy (.budgetExhausted limit)
      abort
    | none => pure ()

/-- Ends the parse because rules nest too deep. -/
def refuseDepth : Parser α := do
  modify fun session =>
    if session.halted then session else session.haltedBy (.tooDeep session.settings.maxDepth)
  abort

/-- The session inside a rule. -/
def inside (rule : Rule) (session : Session) : Session :=
  { session with
    depth := session.depth + 1
    rules := rule.name?.toList ++ session.rules
    queryDepth := if rule.opensQuery then session.queryDepth + 1 else session.queryDepth }

/-- The session behind a rule: what the rule opened is closed. -/
def outside (rule : Rule) (session : Session) : Session :=
  { session with
    depth := session.depth - 1
    rules := session.rules.drop rule.name?.toList.length
    queryDepth := if rule.opensQuery then session.queryDepth - 1 else session.queryDepth }

/-- The session behind a rule that failed: a rule with a name goes back to where it began. -/
def outsideFailed (rule : Rule) (start : Nat) (session : Session) : Session :=
  if rule.name?.isSome then
    outside rule { session with cursor := session.cursor.moveTo start }
  else outside rule session

/-- Runs the body of a rule one level deeper. -/
def nested (rule : Rule) (body : Parser α) : Parser α := fun before =>
  match body (inside rule before) with
  | .ok value after => .ok value (outside rule after)
  | .error failure after => .error failure (outsideFailed rule before.cursor.position after)

/-! ### Alternatives -/

/-- Runs a parser as one that is being tried: nothing in it recovers from a failure. -/
def speculate (parser : Parser α) : Parser α := fun before =>
  let settle (after : Session) : Session := { after with speculation := after.speculation - 1 }
  match parser { before with speculation := before.speculation + 1 } with
  | .ok value after => .ok value (settle after)
  | .error failure after => .error failure (settle after)

/-- Drops the notes behind the cursor: they come from alternatives that were given up. -/
def dropNotesAhead (session : Session) : Session :=
  match session.furthest with
  | some furthest =>
    if session.cursor.position < furthest.position then { session with furthest := none }
    else session
  | none => session

/-- Tries an alternative of a choice. -/
def alternative (parser : Parser α) : Parser α := do
  let value ← speculate parser
  modify dropNotesAhead
  pure value

/-- The first of two alternatives that succeeds. -/
def firstOf (first second : Parser α) : Parser α := fun before =>
  match alternative first before with
  | .ok value after => .ok value after
  | .error failure after =>
    if failure.fatal then .error failure after else alternative second after

/-- A value, or nothing if the parser fails. -/
def optional (parser : Parser α) : Parser (Option α) := fun before =>
  match speculate parser before with
  | .ok value after => .ok (some value) after
  | .error failure after => if failure.fatal then .error failure after else .ok none after

/-! ### Recovery -/

/-- Skips to the next token from which the parse can go on, and tells how many were skipped. -/
def resynchronize (sync : List TokenKind) (failedAt : Nat) : Parser Nat := do
  let skipped := (← get).cursor.skipped sync failedAt
  modify fun session => { session with cursor := session.cursor.resynchronized sync failedAt }
  pure skipped

/-- Reports a failure and skips to a token from which the parse can go on, or fails again. -/
def recoverFrom (failure : Failure) (sync : List TokenKind) : Parser Unit := do
  if failure.fatal || !(← canRecover) then throw failure
  else
    modify fun session => session.reporting failure
    if (← get).halted then abort
    else
      let _ ← resynchronize sync failure.position

/-- The value of a parser, or what comes of recovering from its failure. -/
def orRecover (parser : Parser α) (sync : List TokenKind) (ifFailed : α) : Parser α := fun before =>
  match parser before with
  | .ok value after => .ok value after
  | .error failure after => (do recoverFrom failure sync; pure ifFailed : Parser α) after

end Parser

end Adql
