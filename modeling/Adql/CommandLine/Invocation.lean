import Adql.Settings

/-!
# Invocations

What a command line asks for, and how it is read.  Arguments are read from left to right: options
by their long or short names, with their values in the same argument or in the next one, and names
of files.  Behind a lone `--` every argument is the name of a file, and `-` always is one.  An
option that is unknown, given twice, or has a missing, superfluous or unreadable value makes the
command line useless; a request for help or for the version ends the reading.
-/

namespace Adql.CommandLine

/-- How a parsed query is printed. -/
inductive Format
  | sql | json | tree | none
  deriving DecidableEq

/-- The name of a format on the command line. -/
def Format.word : Format → String
  | .sql => "sql"
  | .json => "json"
  | .tree => "tree"
  | .none => "none"

/-- The format of a name. -/
def Format.ofWord? (word : String) : Option Format :=
  [Format.sql, .json, .tree, .none].find? (·.word == word)

/-- An option of the command line. -/
inductive Switch
  | verbose | noRecover | maxErrors | maxTokens | ruleBudget | maxDepth | format | columns | fold
  | help | version
  deriving DecidableEq

namespace Switch

/-- All options. -/
def all : List Switch :=
  [.verbose, .noRecover, .maxErrors, .maxTokens, .ruleBudget, .maxDepth, .format, .columns, .fold,
   .help, .version]

/-- The long name of an option. -/
def long : Switch → String
  | .verbose => "verbose"
  | .noRecover => "no-recover"
  | .maxErrors => "max-errors"
  | .maxTokens => "max-tokens"
  | .ruleBudget => "rule-budget"
  | .maxDepth => "max-depth"
  | .format => "format"
  | .columns => "columns"
  | .fold => "fold"
  | .help => "help"
  | .version => "version"

/-- The letter of an option that has one. -/
def short? : Switch → Option Char
  | .verbose => some 'v'
  | .format => some 'f'
  | .help => some 'h'
  | .version => some 'V'
  | _ => none

/-- Does the option have a value? -/
def takesValue : Switch → Bool
  | .maxErrors | .maxTokens | .ruleBudget | .maxDepth | .format => true
  | .verbose | .noRecover | .columns | .fold | .help | .version => false

/-- The option of a long name. -/
def ofLong? (name : String) : Option Switch :=
  all.find? (·.long == name)

/-- The option of a letter. -/
def ofShort? (letter : Char) : Option Switch :=
  all.find? (·.short? == some letter)

end Switch

/-- What a command line asks for. -/
structure Invocation where
  /-- How many times more words were asked for. -/
  verbosity : Nat := 0
  /-- Does the parse stop at the first error? -/
  noRecover : Bool := false
  /-- The limit on errors, if it was given. -/
  maxErrors : Option Nat := none
  /-- The limit on tokens, if it was given. -/
  maxTokens : Option Nat := none
  /-- The limit on applications of rules, if it was given. -/
  ruleBudget : Option Nat := none
  /-- The limit on nesting, if it was given. -/
  maxDepth : Option Nat := none
  /-- How parsed queries are printed. -/
  format : Format := .sql
  /-- Are columns listed? -/
  columns : Bool := false
  /-- Are constants folded? -/
  fold : Bool := false
  /-- The names of the files. -/
  files : List String := []
  /-- The options that were given, but for the one that may be repeated. -/
  given : List Switch := []

/-- Why a command line asks for no parse. -/
inductive Dismissal
  | misuse | help | version
  deriving DecidableEq

namespace Invocation

/-- Takes note that an option was given, which may happen once. -/
def mark (invocation : Invocation) (switch : Switch) : Except Dismissal Invocation :=
  if switch ∈ invocation.given then .error .misuse
  else .ok { invocation with given := switch :: invocation.given }

/-- Sets an option that has no value. -/
def enable (invocation : Invocation) (switch : Switch) : Except Dismissal Invocation :=
  match switch with
  | .verbose => .ok { invocation with verbosity := invocation.verbosity + 1 }
  | .help => .error .help
  | .version => .error .version
  | .noRecover => ({ · with noRecover := true }) <$> invocation.mark switch
  | .columns => ({ · with columns := true }) <$> invocation.mark switch
  | .fold => ({ · with fold := true }) <$> invocation.mark switch
  | _ => .error .misuse

/-- A value that can be read. -/
def readable {α : Type} : Option α → Except Dismissal α
  | some value => .ok value
  | none => .error .misuse

/-- Sets an option to a value. -/
def assign (invocation : Invocation) (switch : Switch) (text : String) :
    Except Dismissal Invocation := do
  let marked ← invocation.mark switch
  match switch with
  | .maxErrors => pure { marked with maxErrors := some (← readable (Settings.readCount? text)) }
  | .maxTokens => pure { marked with maxTokens := some (← readable (Settings.readCount? text)) }
  | .ruleBudget => pure { marked with ruleBudget := some (← readable (Settings.readCount? text)) }
  | .maxDepth => pure { marked with maxDepth := some (← readable (Settings.readCount? text)) }
  | .format => pure { marked with format := ← readable (Format.ofWord? text) }
  | _ => .error .misuse

/-- Adds the name of a file. -/
def addFile (invocation : Invocation) (name : String) : Except Dismissal Invocation :=
  if name.isEmpty then .error .misuse
  else .ok { invocation with files := invocation.files ++ [name] }

/-- Adds the names of files. -/
def addFiles (invocation : Invocation) (names : List String) : Except Dismissal Invocation :=
  names.foldlM addFile invocation

/-- Reads an argument of letters; an option with a value takes the letters behind it, or else the
next argument, for which it is handed back. -/
def readLetters (invocation : Invocation) :
    List Char → Except Dismissal (Invocation × Option Switch)
  | [] => .ok (invocation, none)
  | letter :: rest =>
    match Switch.ofShort? letter with
    | none => .error .misuse
    | some switch =>
      if switch.takesValue then
        match rest with
        | [] => .ok (invocation, some switch)
        | '=' :: value => (·, none) <$> invocation.assign switch (String.ofList value)
        | value => (·, none) <$> invocation.assign switch (String.ofList value)
      else do
        let invocation ← invocation.enable switch
        readLetters invocation rest

/-- Reads an argument with a long name; an option with a value takes what is behind the equals
sign, or else the next argument, for which it is handed back. -/
def readName (invocation : Invocation) (text : List Char) :
    Except Dismissal (Invocation × Option Switch) := do
  let name := text.takeWhile (· != '=')
  let switch ← readable (Switch.ofLong? (String.ofList name))
  match text.dropWhile (· != '=') with
  | [] =>
    if switch.takesValue then pure (invocation, some switch)
    else pure (← invocation.enable switch, none)
  | _ :: value => pure (← invocation.assign switch (String.ofList value), none)

/-- Reads an argument, and hands back an option whose value is the next one. -/
def readArgument (invocation : Invocation) (argument : String) :
    Except Dismissal (Invocation × Option Switch) :=
  match argument.toList with
  | '-' :: '-' :: name => invocation.readName name
  | ['-'] => (·, none) <$> invocation.addFile argument
  | '-' :: letters => invocation.readLetters letters
  | _ => (·, none) <$> invocation.addFile argument

/-- Can an argument be the value of the option in front of it? -/
def isValue (argument : String) : Bool :=
  match argument.toList with
  | ['-'] => true
  | '-' :: _ => false
  | _ => true

/-- Reads arguments; the option is one whose value is the next argument. -/
def readArguments (invocation : Invocation) :
    Option Switch → List String → Except Dismissal Invocation
  | none, [] => .ok invocation
  | some _, [] => .error .misuse
  | some switch, value :: rest => do
    if isValue value then
      let invocation ← invocation.assign switch value
      readArguments invocation none rest
    else .error .misuse
  | none, argument :: rest =>
    if argument = "--" then invocation.addFiles rest
    else do
      let (invocation, switch) ← invocation.readArgument argument
      readArguments invocation switch rest

/-- Reads a command line. -/
def ofArguments (arguments : List String) : Except Dismissal Invocation :=
  readArguments {} none arguments

/-- The names of the inputs; without any, standard input is read. -/
def inputs (invocation : Invocation) : List String :=
  if invocation.files.isEmpty then ["-"] else invocation.files

/-- The settings with the changes that the command line asks for. -/
def adjust (invocation : Invocation) (settings : Settings) : Settings :=
  let settings := if invocation.noRecover then { settings with recover := false } else settings
  let settings := invocation.maxErrors.elim settings settings.withMaxErrors
  let settings := { settings with
    maxTokens := invocation.maxTokens <|> settings.maxTokens
    ruleBudget := invocation.ruleBudget <|> settings.ruleBudget }
  invocation.maxDepth.elim settings settings.withMaxDepth

end Invocation

end Adql.CommandLine
