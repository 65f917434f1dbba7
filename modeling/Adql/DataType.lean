/-!
# Data types

The types to which a value can be converted.
-/

namespace Adql

/-- The target type of a conversion. -/
inductive DataType
  | smallint | integer | bigint
  | real | double
  | char (length : Option UInt32)
  | varchar (length : Option UInt32)
  | timestamp
  | point | circle | polygon
  deriving DecidableEq

namespace DataType

/-- A type name with its length, if it has one. -/
def withLength (name : String) : Option UInt32 → String
  | none => name
  | some length => s!"{name}({length.toNat})"

/-- The name of the type in a query. -/
def text : DataType → String
  | .smallint => "SMALLINT"
  | .integer => "INTEGER"
  | .bigint => "BIGINT"
  | .real => "REAL"
  | .double => "DOUBLE PRECISION"
  | .char length => withLength "CHAR" length
  | .varchar length => withLength "VARCHAR" length
  | .timestamp => "TIMESTAMP"
  | .point => "POINT"
  | .circle => "CIRCLE"
  | .polygon => "POLYGON"

end DataType

end Adql
