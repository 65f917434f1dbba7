/-!
# Geometry functions

The functions on points and regions of the sky.  Their names are ordinary identifiers that count
as geometry only in front of an argument list, and each function fixes how many arguments it takes.
-/

namespace Adql

/-- A geometry function. -/
inductive Geometry
  | point | circle | box | polygon | region
  | contains | intersects
  | area | centroid | coord1 | coord2 | coordsys | distance
  deriving DecidableEq

namespace Geometry

/-- All geometry functions. -/
def all : List Geometry :=
  [.point, .circle, .box, .polygon, .region, .contains, .intersects,
   .area, .centroid, .coord1, .coord2, .coordsys, .distance]

/-- The upper-case name of the function. -/
def spelling : Geometry → String
  | .point => "POINT"
  | .circle => "CIRCLE"
  | .box => "BOX"
  | .polygon => "POLYGON"
  | .region => "REGION"
  | .contains => "CONTAINS"
  | .intersects => "INTERSECTS"
  | .area => "AREA"
  | .centroid => "CENTROID"
  | .coord1 => "COORD1"
  | .coord2 => "COORD2"
  | .coordsys => "COORDSYS"
  | .distance => "DISTANCE"

/-- The function of a name, in either case of its ASCII letters. -/
def ofName? (name : String) : Option Geometry :=
  let upper := name.toUpper
  all.find? fun function => function.spelling == upper

/-- The fewest and the most arguments; `none` stands for no bound. -/
def arity : Geometry → Nat × Option Nat
  | .point => (2, some 3)
  | .circle => (2, some 4)
  | .box => (3, some 5)
  | .polygon => (3, none)
  | .contains | .intersects => (2, some 2)
  | .distance => (2, some 4)
  | .region | .area | .centroid | .coord1 | .coord2 | .coordsys => (1, some 1)

/-- Does a call with so many arguments lack one?  A distance is taken between two points or
between four coordinates, so three arguments are one too few. -/
def needsMore (function : Geometry) (count : Nat) : Bool :=
  count < function.arity.1 || (function = .distance && count = 3)

/-- May a call with so many arguments take another one? -/
def acceptsMore (function : Geometry) (count : Nat) : Bool :=
  match function.arity.2 with
  | some most => count < most
  | none => true

/-- Does the function answer yes or no? -/
def isPredicate : Geometry → Bool
  | .contains | .intersects => true
  | _ => false

/-- Every geometry function is listed. -/
theorem mem_all (function : Geometry) : function ∈ all := by
  cases function <;> decide

/-- The name of a geometry function is in upper case. -/
theorem toUpper_spelling (function : Geometry) :
    function.spelling.toUpper = function.spelling := by
  have upper : ∀ function ∈ all, function.spelling.toUpper = function.spelling := by
    decide +kernel
  exact upper function function.mem_all

/-- A geometry function is found by its name. -/
theorem ofName?_spelling (function : Geometry) : ofName? function.spelling = some function := by
  have found : ∀ function ∈ all, ofName? function.spelling = some function := by decide +kernel
  exact found function function.mem_all

end Geometry

end Adql
