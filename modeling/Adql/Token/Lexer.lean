import Adql.Token.Gap
import Adql.Token.Lexeme.Lossless

/-!
# Cutting text into tokens

A `Lexer` is the text that is still to be read and its place.  `Lexer.next` skips the gap in front
of the next token and reads one token; it goes on after an error from where the error was found,
and at the end of the text it answers the end marker for ever.  `tokenize` reads a whole text and
stops at the first error.

A piece of text that is read is always a prefix of what was left: `Lexeme.used` and `Lexeme.rest`
make up the text that was scanned, and the place of the rest is found by advancing over the part
that was used.
-/

namespace Adql

/-- The token that was read at a place, or the error there. -/
def Lexeme.answer (lexeme : Lexeme) (place : Position) : Except LexError Token :=
  match lexeme.outcome with
  | .ok kind =>
    let stop := place.advance lexeme.used
    .ok ⟨kind, String.ofList lexeme.used, ⟨place.offset, stop.offset⟩, place.line, place.column⟩
  | .error fault => .error ⟨fault, place⟩

/-- A text that is being read. -/
structure Lexer where
  /-- The text that is still to be read. -/
  rest : List Char
  /-- The place of that text. -/
  place : Position

namespace Lexer

/-- Reading starts at the beginning of the text. -/
def ofText (text : String) : Lexer :=
  ⟨text.toList, .origin⟩

/-- Reads the next token, and gives what is left after it or after the error. -/
def next (lexer : Lexer) : Except LexError Token × Lexer :=
  let gap := skipGap .between lexer.place lexer.rest
  match gap.unclosed with
  | some opening => (.error ⟨.unterminatedComment, opening⟩, ⟨gap.rest, gap.place⟩)
  | none =>
    let lexeme := scanToken gap.rest
    (lexeme.answer gap.place, ⟨lexeme.rest, gap.place.advance lexeme.used⟩)

/-- As long as tokens other than the end marker are read, the text gets shorter. -/
theorem length_next_lt {lexer following : Lexer} {token : Token}
    (h : lexer.next = (.ok token, following)) (more : token.isEnd = false) :
    following.rest.length < lexer.rest.length := by
  have gapLength := length_skipGap_le .between lexer.place lexer.rest
  simp only [next] at h
  split at h
  · simp at h
  · by_cases empty : (skipGap .between lexer.place lexer.rest).rest = []
    · simp only [empty, scanToken, Lexeme.answer, Prod.mk.injEq, Except.ok.injEq] at h
      simp [← h.1, Token.isEnd] at more
    · have shorter := length_scanToken_lt empty
      have rest := congrArg (fun answer => answer.2.rest.length) h
      simp only at rest
      omega

/-- The tokens that are left, up to and with the end marker, or the first error. -/
def tokens (lexer : Lexer) : Except LexError (List Token) :=
  match _h : lexer.next with
  | (.error error, _) => .error error
  | (.ok token, following) =>
    if _more : token.isEnd then .ok [token]
    else following.tokens.map (token :: ·)
termination_by lexer.rest.length
decreasing_by exact length_next_lt _h (by simpa using _more)

/-- The answers of the first reads, errors included. -/
def answers (lexer : Lexer) : Nat → List (Except LexError Token)
  | 0 => []
  | count + 1 =>
    let (answer, following) := lexer.next
    answer :: following.answers count

end Lexer

/-- The tokens of a text, the end marker last, or the first error. -/
def tokenize (text : String) : Except LexError (List Token) :=
  (Lexer.ofText text).tokens

end Adql
