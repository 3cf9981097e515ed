import Runbook.Command
import Runbook.Text.Cut

/-!
# Command lines

A command line is the name of a command and its options. An option that takes a value is written
`--name value` or `--name=value`. An option whose value is the next word is taken in only when the
next option comes or the line ends; so a word that cannot stand in the line is reported before what
is wrong with such a value.

* `CommandLine.Word` tells words by their dashes,
* `CommandLine.parse` reads a command line.
-/

namespace Runbook.CommandLine

/-- Why a command line is refused, or answered with help. -/
inductive UsageError where
  | noCommand
  | unknownCommand
  | unknownArgument
  | missingArgument
  | repeatedArgument
  | invalidValue
  /-- A value for an argument that takes none. -/
  | unexpectedValue
  | helpRequested
  deriving Repr, DecidableEq

/-! ### Words -/

inductive Word where
  /-- Two dashes alone: no options follow. -/
  | endOfOptions
  | long (name : String) (value : Option String)
  | short (letters : List Char)
  | plain (text : String)
  deriving Repr, DecidableEq

/-- The name of a long option, and the value after an equals sign. -/
def Word.ofLong (cs : List Char) : Word :=
  match Text.cutAt ['='] cs with
  | some (name, value) => .long (String.ofList name) (some (String.ofList value))
  | none => .long (String.ofList cs) none

def Word.ofText (s : String) : Word :=
  match s.toList with
  | ['-', '-'] => .endOfOptions
  | '-' :: '-' :: cs => .ofLong cs
  | '-' :: c :: cs => .short (c :: cs)
  | _ => .plain s

def helpOption : String := "help"

def helpLetter : Char := 'h'

/-! ### Options of a command -/

/-- The options that a command has. -/
structure Signature where
  /-- The options that take a value, each with the values that it takes. -/
  options : List (String × (String → Bool))
  /-- The options that take no value. -/
  flags : List String

/-- The options that have been read. -/
structure Given where
  values : List (String × String) := []
  flags : List String := []
  /-- An option that is not taken in yet, and its value if it has come. -/
  pending : Option (String × Option String) := none

namespace Given

/-- Takes an option in. It may be given once, and has to have a value that it takes. -/
def take (signature : Signature) (g : Given) (name value : String) : Except UsageError Given :=
  if (g.values.lookup name).isSome then .error .repeatedArgument
  else if (signature.options.lookup name).any (· value) then
    .ok { g with values := (name, value) :: g.values }
  else .error .invalidValue

/-- Takes the pending option in. -/
def settle (signature : Signature) (g : Given) : Except UsageError Given :=
  match g.pending with
  | none => .ok g
  | some (_, none) => .error .invalidValue
  | some (name, some value) => take signature { g with pending := none } name value

/-- Reads a flag. -/
def raise (signature : Signature) (g : Given) (flag : String) : Except UsageError Given := do
  let g ← g.settle signature
  if g.flags.contains flag then .error .repeatedArgument
  else return { g with flags := flag :: g.flags }

/-- Ends with help, unless the pending option is wrong. -/
def help (signature : Signature) (g : Given) : Except UsageError Given := do
  let _ ← g.settle signature
  .error .helpRequested

/-- Reads a long option. -/
def long (signature : Signature) (g : Given) (name : String) (value : Option String) :
    Except UsageError Given :=
  if (signature.options.lookup name).isSome then do
    let g ← g.settle signature
    match value with
    | some value => take signature g name value
    | none => return { g with pending := some (name, none) }
  else if signature.flags.contains name then
    if value.isSome then .error .unexpectedValue else g.raise signature name
  else if name == helpOption then
    if value.isSome then .error .unexpectedValue else g.help signature
  else .error .unknownArgument

/-- Reads a word without dashes, which can only be the value of the pending option. -/
def plain (g : Given) (text : String) : Except UsageError Given :=
  match g.pending with
  | some (name, none) => .ok { g with pending := some (name, some text) }
  | _ => .error .unknownArgument

end Given

/-- Reads the options of a command. -/
def readOptions (signature : Signature) (g : Given) : List String → Except UsageError Given
  | [] => g.settle signature
  | word :: rest =>
    match Word.ofText word with
    | .endOfOptions => if rest.isEmpty then g.settle signature else .error .unknownArgument
    | .long name value => do readOptions signature (← g.long signature name value) rest
    | .short letters =>
      if letters.head? == some helpLetter then do
        readOptions signature (← g.help signature) rest
      else .error .unknownArgument
    | .plain text => do readOptions signature (← g.plain text) rest

/-! ### Commands -/

def isPath (value : String) : Bool := !value.isEmpty

def runSignature : Signature where
  options := [("playbook", isPath), ("alert-data", isPath), ("mock-scenarios", isPath),
    ("config", isPath), ("result-file", isPath),
    ("format", fun v => (ReportFormat.ofText? v).isSome)]
  flags := ["verbose"]

def checkSignature : Signature where
  options := [("playbook", isPath), ("format", fun v => (VerdictFormat.ofText? v).isSome)]
  flags := []

def Given.path? (g : Given) (name : String) : Option Path := (g.values.lookup name).map Path.mk

def runCommand (words : List String) : Except UsageError Command := do
  let g ← readOptions runSignature {} words
  match g.path? "playbook", g.path? "alert-data" with
  | some document, some alertData =>
    return .run
      { document := document
        alertData := alertData
        scenarios := g.path? "mock-scenarios"
        config := g.path? "config"
        resultFile := g.path? "result-file"
        format := ((g.values.lookup "format").bind ReportFormat.ofText?).getD .yaml
        verbose := g.flags.contains "verbose" }
  | _, _ => .error .missingArgument

def checkCommand (words : List String) : Except UsageError Command := do
  let g ← readOptions checkSignature {} words
  match g.path? "playbook" with
  | some document =>
    return .check
      { document := document
        format := ((g.values.lookup "format").bind VerdictFormat.ofText?).getD .text }
  | none => .error .missingArgument

def runName : String := "run"

def checkName : String := "validate"

def helpName : String := "help"

def commandNames : List String := [runName, checkName, helpName]

/-- What asking for help on commands leads to: help on at most one command. -/
def helpOn : List String → UsageError
  | [] => .helpRequested
  | [name] => if commandNames.contains name then .helpRequested else .unknownCommand
  | _ => .unknownCommand

/-- Reads a command line, which is given without the name of the program. -/
def parse : List String → Except UsageError Command
  | [] => .error .noCommand
  | word :: rest =>
    match Word.ofText word with
    | .endOfOptions =>
      match rest with
      | [] => .error .noCommand
      | name :: _ =>
        if commandNames.contains name then .error .unknownArgument else .error .unknownCommand
    | .long name value =>
      if name == helpOption then
        if value.isSome then .error .unexpectedValue else .error .helpRequested
      else .error .unknownArgument
    | .short letters =>
      if letters.head? == some helpLetter then .error .helpRequested else .error .unknownArgument
    | .plain text =>
      if text == runName then runCommand rest
      else if text == checkName then checkCommand rest
      else if text == helpName then .error (helpOn rest)
      else .error .unknownCommand

end Runbook.CommandLine
