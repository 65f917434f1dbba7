import Adql.CommandLine.Invocation
import Adql.Folding
import Adql.Grammar
import Adql.Traversal.Passes
import Adql.Tree.Datum
import Adql.Tree.Printer

/-!
# Runs of the program

A run checks its inputs one after another.  For each input it reports the diagnostics, lists the
columns and prints the query as the command line asks, and the worst that happened to any input
decides how the run ends.
-/

namespace Adql.CommandLine

/-- How a run ends. -/
inductive Status
  | clean | syntaxErrors | failed
  deriving DecidableEq

namespace Status

/-- The number that stands for the end of a run. -/
def code : Status → Nat
  | .clean => 0
  | .syntaxErrors => 1
  | .failed => 2

/-- The worse of two ends. -/
def worst (first second : Status) : Status :=
  if first.code < second.code then second else first

end Status

/-- What a run writes, and how it ends. -/
structure Report where
  /-- The lines of the output. -/
  output : List String
  /-- The lines of messages. -/
  messages : List String
  /-- How the run ends. -/
  status : Status

/-- Two reports, one after the other. -/
def Report.append (first second : Report) : Report :=
  ⟨first.output ++ second.output, first.messages ++ second.messages,
    first.status.worst second.status⟩

/-- The report of a run without inputs. -/
def Report.empty : Report :=
  ⟨[], [], .clean⟩

/-- Is an input standard input?  Its name is `-`, also as a path with nothing else in it. -/
def isStandardInput (input : String) : Bool :=
  match input.splitOn "/" with
  | "-" :: rest => rest.all fun part => part.isEmpty || part == "."
  | _ => false

/-- The name of an input in messages. -/
def displayName (input : String) : String :=
  if isStandardInput input then "<stdin>" else input

/-- The query in a format, if it is printed at all. -/
def render (query : Query) : Format → Option String
  | .sql => some query.text
  | .json => some query.datum.document.pretty
  | .tree => some query.datum.outline
  | .none => none

/-- The texts of the columns, each once, in the order in which they first appear. -/
def columnNames (query : Query) : List String :=
  query.columns.foldl
    (fun names column => if column.text ∈ names then names else names ++ [column.text]) []

/-- What is printed for a query. -/
def outputLines (invocation : Invocation) (query : Query) : List String :=
  let query := if invocation.fold then query.folded.1 else query
  (if invocation.columns then columnNames query else []) ++
    (render query invocation.format).toList

/-- The report on a text. -/
def checkText (invocation : Invocation) (settings : Settings) (name text : String) : Report :=
  match parseText? text settings with
  | .error error => ⟨[], [name ++ ":" ++ error.message], .failed⟩
  | .ok outcome =>
    let output := outcome.tree.elim [] (outputLines invocation)
    let messages := outcome.errors.map fun error => name ++ ":" ++ error.message
    ⟨output, messages, if outcome.isClean then .clean else .syntaxErrors⟩

/-- The report on an input, from its text or from why it cannot be read. -/
def checkInput (invocation : Invocation) (settings : Settings) (input : String)
    (content : Except String String) : Report :=
  let name := displayName input
  match content with
  | .error reason => ⟨[], ["cannot read " ++ name ++ ": " ++ reason], .failed⟩
  | .ok text => checkText invocation settings name text

/-- What a run finds around it. -/
structure Surroundings where
  /-- The values of environment variables. -/
  environment : String → Option String
  /-- The texts of files, or why they cannot be read. -/
  file : String → Except String String
  /-- The text of standard input, or why it cannot be read. -/
  standardInput : Except String String

/-- The inputs with their contents.  Standard input can be read once; then it is empty. -/
def contents (surroundings : Surroundings) :
    Except String String → List String → List (String × Except String String)
  | _, [] => []
  | standardInput, input :: rest =>
    if isStandardInput input then (input, standardInput) :: contents surroundings (.ok "") rest
    else (input, surroundings.file input) :: contents surroundings standardInput rest

/-- The report of a run. -/
def run (invocation : Invocation) (surroundings : Surroundings) : Report :=
  let settings := invocation.adjust (.ofEnvironment surroundings.environment)
  (contents surroundings surroundings.standardInput invocation.inputs).foldl
    (fun report (input, content) => report.append (checkInput invocation settings input content))
    .empty

/-- The number with which the program ends when there is no run. -/
def Dismissal.code : Dismissal → Nat
  | .misuse => 2
  | .help | .version => 0

end Adql.CommandLine
