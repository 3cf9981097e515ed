import Runbook.Location
import Runbook.Text.Cut

/-!
# Issues

An `Issue` is a defect of a document or of a configuration: how severe it is, what kind it is,
where it is and what is said about it. Lists of issues are reported in the order of
`Issue.precedes`, issues that it does not tell apart keeping their places.
-/

namespace Runbook

inductive Severity where
  | error
  | warning
  | info
  deriving Repr, DecidableEq, Ord

def Severity.text : Severity → String
  | error => "error"
  | warning => "warning"
  | info => "info"

def Severity.ofText? : String → Option Severity
  | "error" => some error
  | "warning" => some warning
  | "info" => some info
  | _ => none

structure Issue where
  kind : String
  severity : Severity
  /-- The node that has the defect, for defects of nodes. -/
  nodeId : Option String
  location : Location
  message : String
  /-- A stable code of the rule that was broken. -/
  reference : Option String
  deriving Repr, DecidableEq

namespace Issue

/-- An issue that rejects the document or configuration. -/
def error (kind : String) (location : Location) (message reference : String) : Issue where
  kind := kind
  severity := .error
  nodeId := none
  location := location
  message := message
  reference := some reference

/-- Issues are told apart by severity, kind, location, message and node, in this order. -/
def compare (a b : Issue) : Ordering :=
  (Ord.compare a.severity b.severity).then <|
    (Ord.compare a.kind b.kind).then <|
      (Ord.compare a.location b.location).then <|
        (Ord.compare a.message b.message).then (Ord.compare a.nodeId b.nodeId)

/-- Whether `a` may stand before `b` in a report. -/
def precedes (a b : Issue) : Bool := (a.compare b).isLE

/-- The issues in report order. -/
def sort (issues : List Issue) : List Issue := issues.mergeSort precedes

def isError (i : Issue) : Bool := i.severity == .error

def hasErrors (issues : List Issue) : Bool := issues.any isError

/-- How an issue is shown. -/
def text (i : Issue) : String :=
  i.severity.text ++ " " ++ i.kind ++ " at " ++ i.location.text ++ ": " ++ i.message ++
    (match i.reference with
      | some r => " (" ++ r ++ ")"
      | none => "")

/-- A list of issues, one on a line, each indented. -/
def listing (issues : List Issue) : String :=
  Text.join "\n" (issues.map fun i => "  " ++ i.text)

end Issue

end Runbook
