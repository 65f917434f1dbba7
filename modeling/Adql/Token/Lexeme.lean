import Adql.Decimal.Numeral
import Adql.Text.Letter
import Adql.Token
import Adql.Token.LexError

/-!
# Single tokens

How one token is read from a text that starts with it: words, quoted texts, numerals, and the
marks of operators and punctuation.  The first character decides which of these it is.  A reader
says which characters it used and which are left, and the kind of the token or why there is none.
-/

namespace Adql

open Adql.Text Adql.Decimal

/-- The outcome of reading one token from a text that starts with it. -/
structure Lexeme where
  /-- The characters that were read. -/
  used : List Char
  /-- The characters that are left. -/
  rest : List Char
  /-- The kind of the token, or why there is none. -/
  outcome : Except LexFault TokenKind

/-- A word: a reserved word or a regular identifier. -/
def scanWord (text : List Char) : Lexeme :=
  let word := text.takeWhile continuesWord
  let kind :=
    match Keyword.ofWord? (String.ofList word) with
    | some keyword => .keyword keyword
    | none => .identifier
  ⟨word, text.dropWhile continuesWord, .ok kind⟩

/-- The rest of a quoted text up to and with its closing quote; a doubled quote does not close. -/
def closeQuote (quote : Char) : List Char → Option (List Char × List Char)
  | [] => none
  | [c] => if c = quote then some ([c], []) else none
  | c :: d :: rest =>
    if c = quote then
      if d = quote then
        (closeQuote quote rest).map fun (body, rest) => (c :: d :: body, rest)
      else some ([c], d :: rest)
    else
      (closeQuote quote (d :: rest)).map fun (body, rest) => (c :: body, rest)

/-- A string literal whose opening quote has been seen. -/
def scanString (rest : List Char) : Lexeme :=
  match closeQuote '\'' rest with
  | some (body, rest) => ⟨'\'' :: body, rest, .ok .string⟩
  | none => ⟨'\'' :: rest, [], .error .unterminatedString⟩

/-- A delimited identifier whose opening quote has been seen. -/
def scanDelimited (rest : List Char) : Lexeme :=
  match closeQuote '"' rest with
  | some (body, rest) =>
    let outcome := if body = ['"'] then .error .emptyIdentifier else .ok .delimitedIdentifier
    ⟨'"' :: body, rest, outcome⟩
  | none => ⟨'"' :: rest, [], .error .unterminatedIdentifier⟩

/-- Does the text go on with a character that continues a word? -/
def goesOn : List Char → Bool
  | [] => false
  | c :: _ => continuesWord c

/-- A numeral that is none: the rest of the word is taken along, points included, so that the
message shows all of it. -/
def malformed (used rest : List Char) : Lexeme :=
  let inWord (c : Char) : Bool := continuesWord c || c == '.'
  let all := used ++ rest.takeWhile inWord
  ⟨all, rest.dropWhile inWord, .error (.malformedNumber (String.ofList all))⟩

/-- The largest integer literal. -/
def maxInteger : Nat := 9223372036854775807

/-- A numeral of a kind when it denotes a value and no word follows at once. -/
def scanNumeral (used rest : List Char) (hasValue : Bool) (kind : TokenKind) : Lexeme :=
  if hasValue && !goesOn rest then ⟨used, rest, .ok kind⟩ else malformed used rest

/-- A hexadecimal integer literal whose base mark has been seen. -/
def scanHexadecimal (mark rest : List Char) : Lexeme :=
  let digits := rest.takeWhile isHexDigit
  let inRange := (readNatural? 16 digits).any (· ≤ maxInteger)
  scanNumeral (mark ++ digits) (rest.dropWhile isHexDigit) inRange .integer

/-- The fraction of a numeral: a point and at least one digit, or nothing. -/
def splitFraction : List Char → List Char × List Char
  | '.' :: d :: rest =>
    if d.isDigit then
      let (digits, rest) := spanDigits (d :: rest)
      ('.' :: digits, rest)
    else ([], '.' :: d :: rest)
  | text => ([], text)

/-- The mark of an exponent with its sign, or nothing. -/
def splitExponentMark : List Char → List Char × List Char
  | [] => ([], [])
  | c :: rest =>
    if c = 'e' ∨ c = 'E' then
      match rest with
      | '+' :: rest => ([c, '+'], rest)
      | '-' :: rest => ([c, '-'], rest)
      | rest => ([c], rest)
    else ([], c :: rest)

/-- A decimal numeral: an integer, or a real number when it has a fraction or an exponent. -/
def scanDecimal (text : List Char) : Lexeme :=
  let (whole, rest) := spanDigits text
  let (fraction, rest) := splitFraction rest
  let (mark, rest) := splitExponentMark rest
  if mark.isEmpty then
    let used := whole ++ fraction
    if fraction.isEmpty then
      scanNumeral used rest ((readNatural? 10 used).any (· ≤ maxInteger)) .integer
    else scanNumeral used rest ((readMagnitude? used).any Double.isFinite) .real
  else
    let (exponent, rest) := spanDigits rest
    let used := whole ++ fraction ++ mark ++ exponent
    scanNumeral used rest ((readMagnitude? used).any Double.isFinite) .real

/-- A numeral. -/
def scanNumber : List Char → Lexeme
  | '0' :: 'x' :: rest => scanHexadecimal ['0', 'x'] rest
  | '0' :: 'X' :: rest => scanHexadecimal ['0', 'X'] rest
  | text => scanDecimal text

/-- An operator or a punctuation mark. -/
def scanSymbol : List Char → Lexeme
  | '(' :: rest => ⟨['('], rest, .ok .leftParen⟩
  | ')' :: rest => ⟨[')'], rest, .ok .rightParen⟩
  | ',' :: rest => ⟨[','], rest, .ok .comma⟩
  | '.' :: rest => ⟨['.'], rest, .ok .dot⟩
  | ';' :: rest => ⟨[';'], rest, .ok .semicolon⟩
  | '+' :: rest => ⟨['+'], rest, .ok .plus⟩
  | '-' :: rest => ⟨['-'], rest, .ok .minus⟩
  | '*' :: rest => ⟨['*'], rest, .ok .star⟩
  | '/' :: rest => ⟨['/'], rest, .ok .slash⟩
  | '%' :: rest => ⟨['%'], rest, .ok .percent⟩
  | '=' :: rest => ⟨['='], rest, .ok .eq⟩
  | '&' :: rest => ⟨['&'], rest, .ok .bitAnd⟩
  | '^' :: rest => ⟨['^'], rest, .ok .bitXor⟩
  | '~' :: rest => ⟨['~'], rest, .ok .bitNot⟩
  | '|' :: '|' :: rest => ⟨['|', '|'], rest, .ok .concat⟩
  | '|' :: rest => ⟨['|'], rest, .ok .bitOr⟩
  | '>' :: '=' :: rest => ⟨['>', '='], rest, .ok .gtEq⟩
  | '>' :: rest => ⟨['>'], rest, .ok .gt⟩
  | '<' :: '=' :: rest => ⟨['<', '='], rest, .ok .ltEq⟩
  | '<' :: '>' :: rest => ⟨['<', '>'], rest, .ok .notEq⟩
  | '<' :: rest => ⟨['<'], rest, .ok .lt⟩
  | '!' :: '=' :: rest => ⟨['!', '='], rest, .ok .notEq⟩
  | c :: rest => ⟨[c], rest, .error (.illegalCharacter c)⟩
  | [] => ⟨[], [], .ok .eof⟩

/-- Does the text start with a point and a digit? -/
def startsFraction : List Char → Bool
  | '.' :: d :: _ => d.isDigit
  | _ => false

/-- Reads one token from a text that starts with it; the first character decides its kind. -/
def scanToken : List Char → Lexeme
  | [] => ⟨[], [], .ok .eof⟩
  | '\'' :: rest => scanString rest
  | '"' :: rest => scanDelimited rest
  | c :: rest =>
    if c.isDigit || startsFraction (c :: rest) then scanNumber (c :: rest)
    else if startsWord c then scanWord (c :: rest)
    else scanSymbol (c :: rest)

end Adql
