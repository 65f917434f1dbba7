import Adql.CommandLine.Run

/-!
# The program

Reads the inputs that the command line names, runs the check on them, and writes the report.
-/

namespace Adql.CommandLine

/-- What is written when help is asked for. -/
def helpText : String :=
  "\n".intercalate [
    "Parse and check ADQL queries",
    "",
    "Usage: adql [OPTIONS] [FILES]...",
    "",
    "Arguments:",
    "  [FILES]...  Query files. Standard input is read when none is given, or for -",
    "",
    "Options:",
    "  -v, --verbose            More messages",
    "      --no-recover         Stop at the first syntax error",
    "      --max-errors <N>     Stop after this many errors",
    "      --max-tokens <N>     Reject inputs with more tokens than this",
    "      --rule-budget <N>    Stop after this many applications of rules",
    "      --max-depth <N>      Stop where the input nests deeper than this",
    "  -f, --format <FORMAT>    sql, json, tree or none",
    "      --columns            List the columns of each query",
    "      --fold               Fold constants before printing",
    "  -h, --help               Print this help",
    "  -V, --version            Print the version"]

/-- The words of the system for a failure, with its number; some calls negate the number. -/
def systemText (details : String) (code : UInt32) : String :=
  let number := if code.toNat < 0x80000000 then code.toNat else UInt32.size - code.toNat
  s!"{details.capitalize} (os error {number})"

/-- Why an input cannot be read. -/
def readFailure : IO.Error → String
  | .noFileOrDirectory _ code details => systemText details code
  | .permissionDenied _ code details => systemText details code
  | .inappropriateType _ code details => systemText details code
  | error => toString error

/-- The text of bytes in UTF-8. -/
def decodeText (bytes : ByteArray) : Except String String :=
  match String.fromUTF8? bytes with
  | some text => .ok text
  | none => .error "stream did not contain valid UTF-8"

/-- The text of an input. -/
def readInput (input : String) : IO (Except String String) := do
  try
    if isStandardInput input then
      return decodeText (← (← IO.getStdin).readBinToEnd)
    return decodeText (← IO.FS.readBinFile input)
  catch error => return .error (readFailure error)

/-- The variables that settings can come from. -/
def variableNames : List String :=
  ["ADQL_RECOVER", "ADQL_MAX_ERRORS", "ADQL_MAX_TOKENS", "ADQL_RULE_BUDGET", "ADQL_MAX_DEPTH"]

/-- The value of a name in a list of names with values. -/
def lookup {α : Type} (entries : List (String × α)) (name : String) : Option α :=
  (entries.find? (·.1 == name)).map (·.2)

/-- Reads what a run needs to know about its surroundings. -/
def surroundings (invocation : Invocation) : IO Surroundings := do
  let entries ← variableNames.filterMapM fun name => do
    return (← IO.getEnv name).map fun value => (name, value)
  let texts ← invocation.inputs.eraseDups.mapM fun input => do
    return (input, ← readInput input)
  return {
    environment := lookup entries
    file := fun name => (lookup texts name).getD (.error "not read")
    standardInput := ((texts.find? (isStandardInput ·.1)).map (·.2)).getD (.ok "") }

end Adql.CommandLine

open Adql.CommandLine in
/-- Runs the program. -/
def main (arguments : List String) : IO UInt32 := do
  match Invocation.ofArguments arguments with
  | .ok invocation =>
    let report := run invocation (← surroundings invocation)
    report.messages.forM IO.eprintln
    report.output.forM IO.println
    return report.status.code.toUInt32
  | .error dismissal =>
    match dismissal with
    | .misuse => IO.eprintln "unusable arguments; try --help"
    | .help => IO.println helpText
    | .version => IO.println "adql 0.1.0"
    return dismissal.code.toUInt32
