import Runbook.Config.Json
import Runbook.Config.Yaml
import Runbook.Host
import Runbook.Json.Reader
import Runbook.Template
import Runbook.Yaml.Document

/-!
# Loading configurations

A configuration is loaded from a file: placeholders in its text stand for environment variables,
then the text is read in the format that the extension of the file tells. A file with another
extension is YAML, or else JSON.

* `Config.read` is what becomes of the text of a file,
* `Config.load` loads a configuration that has no issues.
-/

namespace Runbook.Config

inductive LoadError where
  | unreadable (path : Path) (error : FileError)
  | placeholder (error : Template.Error)
  /-- The text is no configuration in the format, or in no format at all. -/
  | undecodable (format : Option String)
  /-- The configuration breaks rules; the issues are in report order. -/
  | invalid (issues : List Issue)
  deriving Repr, DecidableEq

/-- What is wrong with a text that is no configuration, less what the reader of the format says. -/
def decodeMessage : Option String → String
  | some format => format ++ " decode error"
  | none => "decode error"

def LoadError.message : LoadError → String
  | unreadable path error =>
    "read runner config failed `" ++ path.text ++ "`: " ++ error.message
  | placeholder error => "runner config parse failed: " ++ error.message
  | undecodable format => "runner config parse failed: " ++ decodeMessage format
  | invalid issues => "runner config validation failed:\n" ++ Issue.listing issues

/-- The configuration that a JSON text describes. -/
def ofJsonText? (s : String) : Option Config := (Json.parse s).bind ofJson?

/-- The configuration that a YAML text describes. -/
def ofYamlText? (s : String) : Option Config := (Yaml.Document.parse s).bind ofDocument?

/-- Reads a text in the format of an extension. -/
def decode (extension : Option String) (s : String) : Except LoadError Config :=
  let answer (format : Option String) : Option Config → Except LoadError Config
    | some c => .ok c
    | none => .error (.undecodable format)
  if extension = some "json" then answer (some "json") (ofJsonText? s)
  else if extension = some "yaml" ∨ extension = some "yml" then answer (some "yaml") (ofYamlText? s)
  else answer none ((ofYamlText? s).or (ofJsonText? s))

/-- Puts environment variables into a text. -/
def expand (value? : String → Option String) (s : String) : Except LoadError String :=
  match Template.expand value? s with
  | .ok s => .ok s
  | .error e => .error (.placeholder e)

/-- Refuses a configuration with issues. -/
def check (c : Config) : Except LoadError Config :=
  if c.issues.isEmpty then .ok c else .error (.invalid (Issue.sort c.issues))

/-- The configuration that is in the file `path` and whose text is `s`. -/
def read (value? : String → Option String) (path : Path) (s : String) :
    Except LoadError Config := do
  let c ← decode path.extension? (← expand value? s)
  let c ← c.check
  match path.parent? with
  | some folder => return c.resolve folder
  | none => return c

section

variable {m : Type → Type} [Monad m] [Host m]

/-- Looks up environment variables. -/
def knownVariables : List String → m (List (String × String))
  | [] => return []
  | name :: rest => do
    let value ← Host.getVariable name
    let others ← knownVariables rest
    match value with
    | some v => return (name, v) :: others
    | none => return others

/-- Loads the configuration in a file. -/
def load (path : Path) : m (Except LoadError Config) := do
  match ← Host.readText path with
  | .error e => return .error (.unreadable path e)
  | .ok s =>
    let known ← knownVariables (Template.names (Template.parse s.toList))
    return read (fun name => known.lookup name) path s

end

end Runbook.Config
