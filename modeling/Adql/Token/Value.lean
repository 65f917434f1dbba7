import Adql.Decimal.Nearest
import Adql.Decimal.Numeral
import Adql.Text.Quoted
import Adql.Token
import Adql.Tree

/-!
# Values of tokens

What the texts of tokens stand for: the values of literals and the names of identifiers.  The
texts need not come from a lexer, so a numeral may turn out to have no value.
-/

namespace Adql

open Adql.Decimal

/-- An integer of sixty-four bits, if it has so many. -/
def int64? (value : Int) : Option Int64 :=
  if Int64.minValue.toInt ≤ value ∧ value ≤ Int64.maxValue.toInt then some (Int64.ofInt value)
  else none

namespace Token

/-- The value of an integer token, decimal or hexadecimal. -/
def integer? (token : Token) : Option Int64 :=
  let value :=
    match token.lexeme.toList with
    | '0' :: 'x' :: digits | '0' :: 'X' :: digits => readInteger? 16 digits
    | digits => readInteger? 10 digits
  value.bind int64?

/-- The value of a real token. -/
def real? (token : Token) : Option Double :=
  (readReal? token.lexeme).filter Double.isFinite

/-- The value of a token that is a literal. -/
def literal? (token : Token) : Option Literal :=
  match token.kind with
  | .integer => token.integer?.map .integer
  | .real => token.real?.map .real
  | .string => some (.string (Text.unquoted '\'' token.lexeme))
  | .keyword .TRUE => some (.boolean true)
  | .keyword .FALSE => some (.boolean false)
  | .keyword .NULL => some .null
  | _ => none

/-- The number of rows that an integer token stands for. -/
def rowCount? (token : Token) : Option UInt64 :=
  token.integer?.bind fun value =>
    if 0 ≤ value then some value.toInt.toNat.toUInt64 else none

/-- The length of a type that an integer token stands for. -/
def length? (token : Token) : Option UInt32 :=
  token.integer?.bind fun value =>
    if 0 ≤ value.toInt ∧ value.toInt < UInt32.size then some value.toInt.toNat.toUInt32
    else none

/-- The name that an identifier token stands for. -/
def identifier? (token : Token) : Option Identifier :=
  match token.kind with
  | .identifier => some (.regular token.lexeme)
  | .delimitedIdentifier => some (.delimited (Text.unquoted '"' token.lexeme))
  | _ => none

/-- The geometry function that a regular identifier names. -/
def geometryFunction? (token : Token) : Option Geometry :=
  match token.kind with
  | .identifier => Geometry.ofName? token.lexeme
  | _ => none

end Token

end Adql
