import Adql.Decimal.Layout

/-!
# Documents

Documents of the usual data notation: records with named fields, lists, texts, numbers, truth
values and nothing.  Integers and real numbers are kept apart.  `Document.pretty` writes a document
over several lines, two spaces deeper at each level.
-/

namespace Adql

open Adql.Decimal

/-- A document. -/
inductive Document
  | null
  | boolean (value : Bool)
  | integer (value : Int)
  | real (value : Double)
  | string (value : String)
  | list (items : List Document)
  | record (fields : List (String × Document))
  deriving Inhabited

namespace Document

/-- One hexadecimal digit. -/
def hexDigit (n : Nat) : Char :=
  Nat.digitChar (n % 16)

/-- One character of a text inside its quotes. -/
def escapeChar (c : Char) : List Char :=
  match c with
  | '"' => ['\\', '"']
  | '\\' => ['\\', '\\']
  | '\n' => ['\\', 'n']
  | '\r' => ['\\', 'r']
  | '\t' => ['\\', 't']
  | '\x08' => ['\\', 'b']
  | '\x0c' => ['\\', 'f']
  | c =>
    if c.toNat < 0x20 then
      ['\\', 'u', '0', '0', hexDigit (c.toNat / 16), hexDigit c.toNat]
    else [c]

/-- A text in quotes. -/
def quoteText (text : String) : String :=
  String.ofList ('"' :: text.toList.flatMap escapeChar ++ ['"'])

/-- A new line at a depth. -/
def newline (depth : Nat) : String :=
  String.ofList ('\n' :: List.replicate (2 * depth) ' ')

mutual

/-- The lines of a document at a depth. -/
def write (depth : Nat) : Document → String
  | .null => "null"
  | .boolean value => if value then "true" else "false"
  | .integer value => value.repr
  | .real value => if value.isFinite then Layout.document.text value else "null"
  | .string value => quoteText value
  | .list [] => "[]"
  | .list (item :: rest) =>
    "[" ++ newline (depth + 1) ++ write (depth + 1) item ++ writeItems (depth + 1) rest ++
      newline depth ++ "]"
  | .record [] => "\x7b\x7d"
  | .record (field :: rest) =>
    "\x7b" ++ newline (depth + 1) ++ writeField (depth + 1) field ++ writeFields (depth + 1) rest ++
      newline depth ++ "\x7d"

/-- The lines of further items. -/
def writeItems (depth : Nat) : List Document → String
  | [] => ""
  | item :: rest => "," ++ newline depth ++ write depth item ++ writeItems depth rest

/-- The lines of a field. -/
def writeField (depth : Nat) : String × Document → String
  | (name, value) => quoteText name ++ ": " ++ write depth value

/-- The lines of further fields. -/
def writeFields (depth : Nat) : List (String × Document) → String
  | [] => ""
  | field :: rest => "," ++ newline depth ++ writeField depth field ++ writeFields depth rest

end

/-- The document over several lines. -/
def pretty (document : Document) : String :=
  document.write 0

/-- The field of a record with a name. -/
def field? (fields : List (String × Document)) (name : String) : Option Document :=
  (fields.find? (·.1 == name)).map (·.2)

end Document

end Adql
