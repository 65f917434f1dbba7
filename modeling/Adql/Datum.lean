import Adql.Document
import Adql.Text.Escaped

/-!
# Described values

A described value carries the names of its types and fields.  It has two renderings: a document,
in which an alternative is a field named after it and a missing value is null, and an outline,
which shows every name and spreads the parts of a value over lines, four spaces deeper at each
level.
-/

namespace Adql

open Adql.Decimal Adql.Text

/-- A value with the names of its parts. -/
inductive Datum
  | boolean (value : Bool)
  | integer (value : Int)
  | real (value : Double)
  | string (value : String)
  /-- A value that is missing. -/
  | absent
  /-- A value that might be missing and is not. -/
  | present (value : Datum)
  | list (items : List Datum)
  | pair (first second : Datum)
  /-- A value of a type with named parts. -/
  | record (type : String) (fields : List (String × Datum))
  /-- An alternative without parts. -/
  | choice (name : String)
  /-- An alternative with one part. -/
  | choiceOf (name : String) (content : Datum)
  /-- An alternative with named parts. -/
  | choiceRecord (name : String) (fields : List (String × Datum))

namespace Datum

/-! ### Documents -/

mutual

/-- The document of a described value. -/
def document : Datum → Document
  | .boolean value => .boolean value
  | .integer value => .integer value
  | .real value => if value.isFinite then .real value else .null
  | .string value => .string value
  | .absent => .null
  | .present value => value.document
  | .list items => .list (documents items)
  | .pair first second => .list [first.document, second.document]
  | .record _ fields => .record (fieldDocuments fields)
  | .choice name => .string name
  | .choiceOf name content => .record [(name, content.document)]
  | .choiceRecord name fields => .record [(name, .record (fieldDocuments fields))]

/-- The documents of described values. -/
def documents : List Datum → List Document
  | [] => []
  | datum :: rest => datum.document :: documents rest

/-- The document of a named part. -/
def fieldDocument : String × Datum → String × Document
  | (name, datum) => (name, datum.document)

/-- The documents of named parts. -/
def fieldDocuments : List (String × Datum) → List (String × Document)
  | [] => []
  | field :: rest => fieldDocument field :: fieldDocuments rest

end

/-! ### Outlines -/

/-- A new line of an outline at a depth. -/
def outlineLine (depth : Nat) : String :=
  String.ofList ('\n' :: List.replicate (4 * depth) ' ')

mutual

/-- The outline of a described value at a depth. -/
def outlineAt (depth : Nat) : Datum → String
  | .boolean value => if value then "true" else "false"
  | .integer value => value.repr
  | .real value => Layout.query.text value
  | .string value => escape value
  | .absent => "None"
  | .present value => "Some" ++ outlineGroup "(" ")" depth (outlineItem (depth + 1) value)
  | .list [] => "[]"
  | .list (item :: rest) =>
    outlineGroup "[" "]" depth (outlineItem (depth + 1) item ++ outlineItems (depth + 1) rest)
  | .pair first second =>
    outlineGroup "(" ")" depth (outlineItem (depth + 1) first ++ outlineItem (depth + 1) second)
  | .record type fields =>
    type ++ " " ++ outlineGroup "\x7b" "\x7d" depth (outlineFields (depth + 1) fields)
  | .choice name => name
  | .choiceOf name content => name ++ outlineGroup "(" ")" depth (outlineItem (depth + 1) content)
  | .choiceRecord name fields =>
    name ++ " " ++ outlineGroup "\x7b" "\x7d" depth (outlineFields (depth + 1) fields)

/-- A part on a line of its own. -/
def outlineItem (depth : Nat) (item : Datum) : String :=
  outlineLine depth ++ outlineAt depth item ++ ","

/-- Parts on lines of their own. -/
def outlineItems (depth : Nat) : List Datum → String
  | [] => ""
  | item :: rest => outlineItem depth item ++ outlineItems depth rest

/-- A named part on a line of its own. -/
def outlineField (depth : Nat) : String × Datum → String
  | (name, datum) => outlineLine depth ++ name ++ ": " ++ outlineAt depth datum ++ ","

/-- Named parts on lines of their own. -/
def outlineFields (depth : Nat) : List (String × Datum) → String
  | [] => ""
  | field :: rest => outlineField depth field ++ outlineFields depth rest

/-- Lines between two brackets. -/
def outlineGroup (opening closing : String) (depth : Nat) (lines : String) : String :=
  opening ++ lines ++ outlineLine depth ++ closing

end

/-- The outline of a described value. -/
def outline (datum : Datum) : String :=
  datum.outlineAt 0

end Datum

end Adql
