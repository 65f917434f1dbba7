import Adql.Position

/-!
# Lexical errors

The causes for which a text cannot be cut into tokens, the place where the offending token
starts, and the wording of both.
-/

namespace Adql

/-- Why no token could be read. -/
inductive LexFault
  | unterminatedString
  | unterminatedIdentifier
  | emptyIdentifier
  | unterminatedComment
  | malformedNumber (text : String)
  | illegalCharacter (c : Char)
  deriving DecidableEq

/-- A fault and the place where the offending token starts. -/
structure LexError where
  /-- What is wrong. -/
  fault : LexFault
  /-- Where the offending token starts. -/
  place : Position
  deriving DecidableEq

/-- The wording of a fault. -/
def LexFault.message : LexFault → String
  | .unterminatedString => "unterminated string literal"
  | .unterminatedIdentifier => "unterminated delimited identifier"
  | .emptyIdentifier => "empty delimited identifier"
  | .unterminatedComment => "unterminated block comment"
  | .malformedNumber text => s!"malformed numeric literal '{text}'"
  | .illegalCharacter c => s!"illegal character '{c}'"

/-- The wording of a lexical error, its place first. -/
def LexError.message (error : LexError) : String :=
  s!"{error.place.label}: {error.fault.message}"

end Adql
