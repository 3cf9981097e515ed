import Runbook.Issue
import Runbook.Json.Reader
import Runbook.Step.Json
import Runbook.Step.Yaml
import Runbook.Text.Blank

/-!
# Runbook documents

A document is a list of steps, written as JSON or as YAML. Where the format is not given, a text
that begins with a bracket or a brace is JSON and every other text is YAML.
-/

namespace Runbook

inductive Format where
  | json
  | yaml
  /-- Decided by the first character. -/
  | auto
  deriving Repr, DecidableEq

namespace Format

/-- The format of a file with the given extension. -/
def ofExtension : Option String → Format
  | some "json" => json
  | some "yaml" => yaml
  | some "yml" => yaml
  | _ => auto

/-- Whether a text begins like a JSON array or object. -/
def looksLikeJson (text : String) : Bool :=
  match Text.trimLeftChars text.toList with
  | c :: _ => c == '[' || c == '{'
  | [] => false

/-- Settles the format of a text. -/
def settle (f : Format) (text : String) : Format :=
  match f with
  | auto => if looksLikeJson text then json else yaml
  | f => f

end Format

namespace Step

/-- The only issue of a text that is no document. Its message leaves out what the reader of the
format has to say of the text, which would follow after a colon. -/
def unreadable (format : String) : Issue :=
  .error "parse_error" .root (format ++ " parse failed") (format ++ ".parse_error")

/-- Reads a document. -/
def parseDocument (format : Format) (text : String) : Except Issue (List Step) :=
  match format.settle text with
  | .json =>
    match (Json.parse text).bind block? with
    | some steps => .ok steps
    | none => .error (unreadable "json")
  | _ =>
    match (Yaml.Document.parse text).bind listOfDocument? with
    | some steps => .ok steps
    | none => .error (unreadable "yaml")

end Step

end Runbook
