import Adql.Decimal.Numeral
import Adql.Document
import Adql.Operator.Precedence
import Adql.Text.Blank

/-!
# Settings of a parse

Whether a parse goes on after an error, the limits at which it stops, and the precedence table it
follows.  Settings are built from the defaults, from environment variables or from a document.
-/

namespace Adql

/-- The settings of a parse. -/
structure Settings where
  /-- Does the parse go on after an error? -/
  recover : Bool := true
  /-- The parse stops after so many errors. -/
  maxErrors : Nat := 64
  /-- More tokens are not parsed at all. -/
  maxTokens : Option Nat := none
  /-- The parse stops after so many applications of rules. -/
  ruleBudget : Option Nat := none
  /-- The parse stops where rules nest deeper. -/
  maxDepth : Nat := 256
  /-- The precedence of the operators. -/
  precedence : PrecedenceTable := .adql
  deriving DecidableEq

namespace Settings

/-- The settings with another limit on errors; a limit of zero counts as one. -/
def withMaxErrors (settings : Settings) (limit : Nat) : Settings :=
  { settings with maxErrors := max 1 limit }

/-- The settings with another limit on nesting; a limit of zero counts as one. -/
def withMaxDepth (settings : Settings) (limit : Nat) : Settings :=
  { settings with maxDepth := max 1 limit }

/-! ### The environment -/

/-- Counts are less than this. -/
def countBound : Nat := UInt64.size

/-- A count as it is written on a command line or in a variable: digits behind an optional plus
sign. -/
def readCount? (text : String) : Option Nat :=
  let digits :=
    match text.toList with
    | '+' :: rest => rest
    | digits => digits
  (Decimal.readNatural? 10 digits).filter (· < countBound)

/-- A truth value as it is written in a variable. -/
def readBoolean? : String → Option Bool
  | "true" => some true
  | "false" => some false
  | _ => none

/-- The settings that environment variables ask for; what they leave out, and what cannot be read,
has its default.  Blanks around a value do not count. -/
def ofEnvironment (lookup? : String → Option String) : Settings :=
  let count? (name : String) : Option Nat := (lookup? name).bind (readCount? <| Text.trimBlanks ·)
  let defaults : Settings := {}
  let settings : Settings :=
    { defaults with
      recover := ((lookup? "ADQL_RECOVER").bind (readBoolean? <| Text.trimBlanks ·)).getD
        defaults.recover
      maxTokens := count? "ADQL_MAX_TOKENS"
      ruleBudget := count? "ADQL_RULE_BUDGET" }
  (settings.withMaxErrors ((count? "ADQL_MAX_ERRORS").getD defaults.maxErrors)).withMaxDepth
    ((count? "ADQL_MAX_DEPTH").getD defaults.maxDepth)

/-! ### Documents -/

/-- A truth value in a document. -/
def booleanOf? : Document → Option Bool
  | .boolean value => some value
  | _ => none

/-- A count in a document. -/
def countOf? : Document → Option Nat
  | .integer value => if 0 ≤ value ∧ value < countBound then some value.toNat else none
  | _ => none

/-- A count in a document that may be null. -/
def optionalCountOf? : Document → Option (Option Nat)
  | .null => some none
  | document => (countOf? document).map some

/-- The value of a part of a document that may be missing. -/
def part? {α : Type} (read : Document → Option α) (default : α) : Option Document → Option α
  | none => some default
  | some document => read document

/-- The settings from their parts, the precedence table apart. -/
def ofParts? (recover maxErrors maxTokens ruleBudget maxDepth : Option Document) :
    Option Settings := do
  let defaults : Settings := {}
  pure
    { defaults with
      recover := ← part? booleanOf? defaults.recover recover
      maxErrors := ← part? countOf? defaults.maxErrors maxErrors
      maxTokens := ← part? optionalCountOf? defaults.maxTokens maxTokens
      ruleBudget := ← part? optionalCountOf? defaults.ruleBudget ruleBudget
      maxDepth := ← part? countOf? defaults.maxDepth maxDepth }

/-- The settings of a document: a record, in which unknown fields do not count, or the list of the
parts in their order.  Missing parts have their defaults; limits are taken as they are. -/
def ofDocument? : Document → Option Settings
  | .record fields =>
    let field? := Document.field? fields
    ofParts? (field? "recover") (field? "max_errors") (field? "max_tokens") (field? "rule_budget")
      (field? "max_depth")
  | .list parts =>
    if parts.length ≤ 5 then ofParts? parts[0]? parts[1]? parts[2]? parts[3]? parts[4]? else none
  | _ => none

end Settings

end Adql
