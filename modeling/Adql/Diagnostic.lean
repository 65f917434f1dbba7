import Adql.Rule
import Adql.Token.KindSet
import Adql.Token.LexError

/-!
# Diagnostics

What a parse reports: the cause, the token at which it was found, and for an unexpected token the
kinds that would have been accepted there and the rules that were active.
-/

namespace Adql

/-- The cause of a diagnostic. -/
inductive DiagnosticCause
  /-- A token of a kind that is none of the expected ones. -/
  | unexpected (expected : KindSet) (found : TokenKind)
  /-- Text that cannot be cut into tokens. -/
  | lexical (error : LexError)
  /-- More tokens than the limit. -/
  | tooManyTokens (count limit : Nat)
  /-- More applications of rules than the budget. -/
  | budgetExhausted (limit : Nat)
  /-- Deeper nesting than the limit. -/
  | tooDeep (limit : Nat)
  deriving DecidableEq

/-- A report about one token. -/
structure Diagnostic where
  /-- The cause. -/
  cause : DiagnosticCause
  /-- The line of the token. -/
  line : Nat
  /-- The column of the token. -/
  column : Nat
  /-- The bytes of the token. -/
  span : Span
  /-- The text of the token. -/
  found : String
  /-- The active rules, outermost first. -/
  rules : List RuleName
  deriving DecidableEq

namespace Diagnostic

/-- A report about a token that names no rules. -/
def atToken (token : Token) (cause : DiagnosticCause) : Diagnostic :=
  ⟨cause, token.line, token.column, token.span, token.lexeme, []⟩

/-- A report about an unexpected token. -/
def unexpected (token : Token) (expected : KindSet) (rules : List RuleName) : Diagnostic :=
  ⟨.unexpected expected token.kind, token.line, token.column, token.span, token.lexeme, rules⟩

/-- A report about a text that cannot be cut into tokens. -/
def lexical (error : LexError) : Diagnostic :=
  let place := error.place
  ⟨.lexical error, place.line, place.column, ⟨place.offset, place.offset⟩, "", []⟩

/-- The start of the token. -/
def position (diagnostic : Diagnostic) : Position :=
  ⟨diagnostic.span.start, diagnostic.line, diagnostic.column⟩

/-- The kinds that would have been accepted, if the cause is an unexpected token. -/
def expected? (diagnostic : Diagnostic) : Option KindSet :=
  match diagnostic.cause with
  | .unexpected expected _ => some expected
  | _ => none

/-- Is the cause a limit that was passed? -/
def isLimit (diagnostic : Diagnostic) : Bool :=
  match diagnostic.cause with
  | .tooManyTokens .. | .budgetExhausted _ | .tooDeep _ => true
  | .unexpected .. | .lexical _ => false

/-- The wording of a diagnostic, its place first. -/
def message (diagnostic : Diagnostic) : String :=
  let place := diagnostic.position.label
  match diagnostic.cause with
  | .unexpected expected kind =>
    let kinds := ", ".intercalate (expected.toList.map TokenKind.display)
    let found := if kind = .eof then "<EOF>" else diagnostic.found
    s!"{place}: expected one of \x7b{kinds}\x7d, found '{found}'"
  | .lexical error => error.message
  | .tooManyTokens count limit => s!"{place}: input has {count} tokens, the limit is {limit}"
  | .budgetExhausted limit => s!"{place}: rule budget of {limit} invocations exhausted"
  | .tooDeep limit => s!"{place}: input nests deeper than {limit} levels"

end Diagnostic

end Adql
