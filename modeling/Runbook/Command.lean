import Runbook.Path

/-!
# Commands

What the program can be asked to do: run a document with alert data, or check a document.
-/

namespace Runbook

/-- How the report of a run is written. -/
inductive ReportFormat where
  | yaml
  | json
  deriving Repr, DecidableEq

def ReportFormat.ofText? : String → Option ReportFormat
  | "yaml" => some yaml
  | "json" => some json
  | _ => none

/-- How the outcome of a check is written. -/
inductive VerdictFormat where
  | text
  | json
  deriving Repr, DecidableEq

def VerdictFormat.ofText? : String → Option VerdictFormat
  | "text" => some text
  | "json" => some json
  | _ => none

/-- What is to be run. -/
structure RunCommand where
  document : Path
  alertData : Path
  /-- Scenarios that answer for all urns that the configuration has no backend for. -/
  scenarios : Option Path := none
  config : Option Path := none
  /-- A file that the report is written to. -/
  resultFile : Option Path := none
  format : ReportFormat := .yaml
  verbose : Bool := false
  deriving Repr, DecidableEq

/-- What is to be checked. -/
structure CheckCommand where
  document : Path
  format : VerdictFormat := .text
  deriving Repr, DecidableEq

inductive Command where
  | run (command : RunCommand)
  | check (command : CheckCommand)
  deriving Repr, DecidableEq

end Runbook
