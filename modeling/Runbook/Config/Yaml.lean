import Runbook.Config
import Runbook.Yaml.Reader

/-!
# Configurations from YAML

A configuration and its parts are mappings. What is left out has its default; a source has to have a
prefix and a path of scenarios.
-/

namespace Runbook.Config

open Runbook.Yaml (Document Reading)

def failureOfYaml (d : Document) (n : Yaml) : Reading FailurePolicy := do
  match FailurePolicy.ofText? (← Reading.word d n) with
  | some policy => return policy
  | none => failure

def engineOfYaml (d : Document) (n : Yaml) : Reading Engine := do
  let defaults : Engine := {}
  let fields ← Reading.record d engineFieldNames n
  let action ← Reading.field fields actionField (some defaults.actionTimeout) (Reading.natural d)
  let condition ←
    Reading.field fields conditionField (some defaults.conditionTimeout) (Reading.natural d)
  let loop ← Reading.field fields loopField (some defaults.loopTimeout) (Reading.natural d)
  let onFailure ← Reading.field fields failureField (some defaults.onFailure) (failureOfYaml d)
  return ⟨action, condition, loop, onFailure⟩

def sourceOfYaml (d : Document) (n : Yaml) : Reading Source := do
  let fields ← Reading.record d sourceFieldNames n
  let urnPrefix ← Reading.field fields prefixField none (Reading.text d)
  let scenarios ← Reading.field fields scenariosField none (Reading.text d)
  let simulateLatency ← Reading.field fields latencyField (some false) (Reading.bool d)
  return ⟨urnPrefix, ⟨scenarios⟩, simulateLatency⟩

def ofYaml (d : Document) (n : Yaml) : Reading Config := do
  let fields ← Reading.record d fieldNames n
  let schema ← Reading.field fields schemaField (some supportedSchema) (Reading.text d)
  let engine ← Reading.field fields engineField (some {}) (engineOfYaml d)
  let backends ←
    Reading.field fields backendsField (some ∅) (Reading.table d (sourceOfYaml d))
  return ⟨schema, engine, backends⟩

/-- The configuration of a document. A text without a document says nothing, so all of its
configuration is the default. -/
def ofDocument? (d : Document) : Option Config :=
  match d.root with
  | none => some {}
  | some n => d.read (ofYaml d n)

end Runbook.Config
