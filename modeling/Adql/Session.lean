import Adql.Diagnostic
import Adql.Settings
import Adql.Token.Cursor

/-!
# Parsing sessions

A session is the state of a parse: a cursor over the tokens, the settings, the diagnostics so far,
and what the rules need to know about one another.  The rules of the grammar are actions on a
session that may fail; a failure leaves the session as it stands, so what was learnt before the
failure is kept.

Every token kind that was looked for and not found is noted.  Only the notes at the furthest
position are kept: they say what would have let the parse continue there, and a failure reports
them.
-/

namespace Adql

/-- What was looked for at the furthest position where anything was looked for in vain. -/
structure Furthest where
  /-- The position. -/
  position : Nat
  /-- The kinds that were looked for. -/
  expected : KindSet
  /-- The rules that were active at the first of these notes, innermost first. -/
  rules : List RuleName
  deriving DecidableEq

/-- Why a rule failed. -/
structure Failure where
  /-- The furthest position where anything was looked for in vain. -/
  position : Nat
  /-- The kinds that were looked for there. -/
  expected : KindSet
  /-- The rules that were active there, innermost first. -/
  rules : List RuleName
  /-- Does the whole parse end, instead of trying an alternative? -/
  fatal : Bool
  deriving DecidableEq

/-- The state of a parse. -/
structure Session where
  /-- The tokens and the place among them. -/
  cursor : TokenCursor
  /-- The settings. -/
  settings : Settings
  /-- The notes at the furthest position. -/
  furthest : Option Furthest
  /-- The active rules, innermost first. -/
  rules : List RuleName
  /-- The diagnostics so far. -/
  errors : Array Diagnostic
  /-- How many rules have been applied. -/
  invocations : Nat
  /-- How deep rules are nested. -/
  depth : Nat
  /-- How many alternatives are being tried. -/
  speculation : Nat
  /-- How many queries are open. -/
  queryDepth : Nat
  /-- Has a limit ended the parse? -/
  halted : Bool

namespace Session

/-- A session in front of the first token. -/
def ofTokens (tokens : List Token) (settings : Settings) : Session where
  cursor := .ofTokens tokens
  settings := settings
  furthest := none
  rules := []
  errors := #[]
  invocations := 0
  depth := 0
  speculation := 0
  queryDepth := 0
  halted := false

/-- The current token. -/
def current (session : Session) : Token :=
  session.cursor.current

/-- The session with one more note: that a kind would have been accepted at the current token. -/
def noting (session : Session) (kind : TokenKind) : Session :=
  let position := session.cursor.position
  let fresh : Furthest := ⟨position, .singleton kind, session.rules⟩
  match session.furthest with
  | none => { session with furthest := some fresh }
  | some furthest =>
    if position < furthest.position then session
    else if position = furthest.position then
      { session with furthest := some { furthest with expected := furthest.expected.insert kind } }
    else { session with furthest := some fresh }

/-- The failure that reports the notes at the furthest position. -/
def failure (session : Session) : Failure :=
  match session.furthest with
  | none => ⟨session.cursor.position, .empty, [], false⟩
  | some furthest => ⟨furthest.position, furthest.expected, furthest.rules, false⟩

/-- The failure that ends the parse. -/
def fatality (session : Session) : Failure :=
  ⟨session.cursor.position, .empty, [], true⟩

/-- The session ended by a limit, with a diagnostic about the current token. -/
def haltedBy (session : Session) (cause : DiagnosticCause) : Session :=
  { session with
    errors := session.errors.push (.atToken session.current cause)
    halted := true }

/-- The session with a failure made a diagnostic.  All notes are dropped, and the parse ends when
there are as many errors as the settings allow. -/
def reporting (session : Session) (failure : Failure) : Session :=
  let token := session.cursor.tokenAt failure.position
  let errors := session.errors.push (.unexpected token failure.expected failure.rules.reverse)
  { session with
    errors := errors
    furthest := none
    halted := session.halted || session.settings.maxErrors ≤ errors.size }

/-- May a failure here be reported and skipped over?  Only the outermost query recovers; nested
queries and alternatives that are being tried pass their failures on. -/
def canRecover (session : Session) : Bool :=
  session.settings.recover && session.speculation == 0 && session.queryDepth == 1 &&
    !session.halted

end Session

/-! ### Resynchronization -/

/-- Is a parenthesis closed by the tokens behind it, with so many parentheses open inside? -/
def closesParenthesis : Nat → List TokenKind → Bool
  | _, [] => false
  | inner, .leftParen :: rest => closesParenthesis (inner + 1) rest
  | 0, .rightParen :: _ => true
  | inner + 1, .rightParen :: rest => closesParenthesis inner rest
  | inner, _ :: rest => closesParenthesis inner rest

/-- How many open parentheses there are behind a token.  One that is never closed does not count,
and neither does a closing one that was never opened. -/
def depthBehind (depth : Nat) (kind : TokenKind) (rest : List TokenKind) : Nat :=
  match kind with
  | .leftParen => if closesParenthesis 0 rest then depth + 1 else depth
  | .rightParen => depth - 1
  | _ => depth

/-- How many tokens to skip to get to one of the given kinds that is outside all parentheses and
not in front of the failure, or to the end. -/
def skipCount (sync : List TokenKind) (failedAt : Nat) :
    (position depth : Nat) → List TokenKind → Nat
  | _, _, [] => 0
  | position, depth, kind :: rest =>
    if kind = .eof then 0
    else if depth = 0 ∧ failedAt ≤ position ∧ kind ∈ sync then 0
    else skipCount sync failedAt (position + 1) (depthBehind depth kind rest) rest + 1

/-- The kinds of the tokens from the cursor on, the end marker included. -/
def TokenCursor.kindsAhead (cursor : TokenCursor) : List TokenKind :=
  (cursor.tokens.toList.drop cursor.position).map (·.kind) ++ [cursor.final.kind]

/-- How many tokens to skip to get to the next one from which the parse can go on. -/
def TokenCursor.skipped (cursor : TokenCursor) (sync : List TokenKind) (failedAt : Nat) : Nat :=
  skipCount sync failedAt cursor.position 0 cursor.kindsAhead

/-- The cursor at the next token from which the parse can go on. -/
def TokenCursor.resynchronized (cursor : TokenCursor) (sync : List TokenKind) (failedAt : Nat) :
    TokenCursor :=
  cursor.moveTo (cursor.position + cursor.skipped sync failedAt)

end Adql
