import Runbook.Command
import Runbook.Command.Failure
import Runbook.Document
import Runbook.Graph.Build
import Runbook.Issue.Json
import Runbook.Json.Printer
import Runbook.Json.Sorted

/-!
# Checking documents

A check lists all issues of a document; the document is valid if none of them is an error.

* `Verdict` is the outcome of a check, as text or as JSON,
* `readDocument` reads the document in a file in the format that its extension tells.
-/

namespace Runbook

/-- Reads a document. -/
def readDocument {m : Type → Type} [Monad m] [Host m] (path : Path) :
    m (Except CommandError (List Step)) := do
  match ← Host.readText path with
  | .error e => return .error (.unreadable path e)
  | .ok s =>
    match Step.parseDocument (.ofExtension path.extension?) s with
    | .ok steps => return .ok steps
    | .error issue => return .error (.documentMalformed issue)

structure Verdict where
  /-- How many steps the document has at all depths. -/
  steps : Nat
  /-- The issues in report order. -/
  issues : List Issue
  deriving Repr, DecidableEq

namespace Verdict

/-- The verdict on a document. -/
def ofDocument (document : List Step) : Verdict := ⟨Step.count document, Graph.validate document⟩

def isValid (v : Verdict) : Bool := !Issue.hasErrors v.issues

/-- A line that sums up, and a line for each issue. -/
def text (v : Verdict) : String :=
  Text.join "\n" (("playbook " ++ (if v.isValid then "valid" else "invalid") ++ ": " ++
    toString v.steps ++ " nodes, " ++ toString v.issues.length ++ " issues") ::
      v.issues.map Issue.text)

def toJson (v : Verdict) : Json :=
  .object [("valid", .bool v.isValid), ("nodes", .ofNat v.steps),
    ("issues", .array (v.issues.map Issue.toJson))]

def render (v : Verdict) : VerdictFormat → String
  | .text => v.text
  | .json => v.toJson.sorted.pretty

end Verdict

/-- Checks a document. -/
def CheckCommand.execute {m : Type → Type} [Monad m] [Host m] (c : CheckCommand) :
    m (Except CommandError CommandOutput) := do
  match ← readDocument c.document with
  | .error e => return .error e
  | .ok document =>
    let v := Verdict.ofDocument document
    return .ok ⟨v.render c.format, v.isValid⟩

end Runbook
