import Runbook.Issue
import Runbook.Path
import Runbook.Run

/-!
# Configurations

A configuration says how long a run waits, what failed iterations do, and which scenarios answer for
which urns.

* `Config.issues` lists what is wrong with a configuration: for every rule that it breaks one issue,
  at the field that breaks it,
* `Config.resolve` makes the paths of scenarios relative to the folder of the configuration.
-/

namespace Runbook

namespace Config

/-- The schema that configurations have to declare. -/
def supportedSchema : String := "playbook-runner/0.0.1"

/-- How many seconds a timeout may last: one week. -/
def longestTimeout : Nat := 7 * 24 * 60 * 60

/-- How runs behave. Timeouts are in seconds. -/
structure Engine where
  actionTimeout : Nat := 1000
  conditionTimeout : Nat := 100
  loopTimeout : Nat := 120
  onFailure : FailurePolicy := .proceed
  deriving Repr, DecidableEq

/-- A file of scenarios that answers for the urns with a prefix. -/
structure Source where
  urnPrefix : String
  scenarios : Path
  /-- Whether answers take the time that the scenarios say. -/
  simulateLatency : Bool := false
  deriving Repr, DecidableEq

end Config

/-- A configuration as it is read, before `Config.issues` has judged it. -/
structure Config where
  schema : String := Config.supportedSchema
  engine : Config.Engine := {}
  /-- The sources by name. -/
  backends : Dict String Config.Source := ∅

namespace Config

/-- The options that runs have, with timeouts in milliseconds. -/
def Engine.options (e : Engine) : Options where
  actionLimit := e.actionTimeout * 1000
  conditionLimit := e.conditionTimeout * 1000
  loopLimit := e.loopTimeout * 1000
  onFailure := e.onFailure

/-! ### Names of fields -/

/-- The field of `Config.schema`. -/
def schemaField : String := "schema"

/-- The field of `Config.engine`. -/
def engineField : String := "engine"

/-- The field of `Config.backends`. -/
def backendsField : String := "backends"

/-- The fields that a configuration may have. -/
def fieldNames : List String := [schemaField, engineField, backendsField]

/-- The field of `Engine.actionTimeout`. -/
def actionField : String := "action_input_timeout_secs"

/-- The field of `Engine.conditionTimeout`. -/
def conditionField : String := "condition_input_timeout_secs"

/-- The field of `Engine.loopTimeout`. -/
def loopField : String := "loop_input_timeout_secs"

/-- The field of `Engine.onFailure`. -/
def failureField : String := "iteration_failure"

/-- The fields of its `engine`. -/
def engineFieldNames : List String := [actionField, conditionField, loopField, failureField]

/-- The field of `Source.urnPrefix`. -/
def prefixField : String := "urn_prefix"

/-- The field of `Source.scenarios`. -/
def scenariosField : String := "scenarios"

/-- The field of `Source.simulateLatency`. -/
def latencyField : String := "simulate_latency"

/-- The fields of one of its `backends`. -/
def sourceFieldNames : List String := [prefixField, scenariosField, latencyField]

/-- Where a source is in a configuration. -/
def sourceLocation (name : String) : Location := (Location.root.key backendsField).key name

/-! ### Rules -/

/-- An issue of a configuration. -/
def issue (location : Location) (message reference : String) : Issue :=
  .error "runner_config_error" location message reference

/-- A configuration declares `supportedSchema`. -/
def schemaIssues (schema : String) : List Issue :=
  if schema = supportedSchema then []
  else
    [issue (Location.root.key schemaField)
      ("unsupported runner config schema `" ++ schema ++ "` (expected `" ++ supportedSchema ++ "`)")
      "runner.config.schema"]

/-- A timeout lasts at least a second and at most `longestTimeout`. -/
def timeoutIssues (field : String) (seconds : Nat) : List Issue :=
  if 1 ≤ seconds ∧ seconds ≤ longestTimeout then []
  else
    [issue ((Location.root.key engineField).key field)
      ("engine." ++ field ++ " must be between 1 and " ++ toString longestTimeout)
      "runner.config.timeout"]

/-- The `timeoutIssues` of the three timeouts, in the order of their fields. -/
def engineIssues (e : Engine) : List Issue :=
  timeoutIssues actionField e.actionTimeout ++ timeoutIssues conditionField e.conditionTimeout ++
    timeoutIssues loopField e.loopTimeout

/-- A source names the file of its scenarios. -/
def scenariosIssues (name : String) (s : Source) : List Issue :=
  if s.scenarios.text = "" then
    [issue ((sourceLocation name).key scenariosField)
      ("backend `" ++ name ++ "` must point at a scenarios file") "runner.config.backend.scenarios"]
  else []

/-- The issue of a source that has the prefix of an earlier one, the nearest of which is named.
`earlier` has the earlier sources, the nearest first. -/
def prefixIssues (earlier : List (String × Source)) (name : String) (s : Source) : List Issue :=
  match earlier.find? (fun e => e.2.urnPrefix == s.urnPrefix) with
  | none => []
  | some (previous, _) =>
    [issue ((sourceLocation name).key prefixField)
      ("backend `" ++ name ++ "` reuses urn_prefix `" ++ s.urnPrefix ++ "` of backend `" ++
        previous ++ "`") "runner.config.backend.prefix_unique"]

/-- The issues of sources, after some `earlier` ones. -/
def sourceIssues (earlier : List (String × Source)) : List (String × Source) → List Issue
  | [] => []
  | (name, s) :: rest =>
    scenariosIssues name s ++ prefixIssues earlier name s ++
      sourceIssues ((name, s) :: earlier) rest

/-- The issues of a configuration in the order of its fields. -/
def issues (c : Config) : List Issue :=
  schemaIssues c.schema ++ engineIssues c.engine ++ sourceIssues [] c.backends.entries

/-! ### Paths -/

/-- Takes the paths of scenarios relative to a folder. -/
def resolve (c : Config) (folder : Path) : Config :=
  { c with
    backends := c.backends.map fun s => { s with scenarios := folder.join s.scenarios } }

end Config

end Runbook
