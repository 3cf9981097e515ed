import Runbook.Config
import Runbook.Json

/-!
# Configurations as JSON

A configuration and its parts are objects, or arrays of their fields in order. What is left out has
its default; a source has to have a prefix and a path of scenarios. What failed iterations do is a
word, alone or as the name of a member that is `null`.
-/

namespace Runbook

def FailurePolicy.ofJson? : Json → Option FailurePolicy
  | .string s => ofText? s
  | .object [(s, .null)] => ofText? s
  | _ => none

namespace Config

/-! ### Reading -/

def Engine.ofJson? (j : Json) : Option Engine := do
  let defaults : Engine := {}
  let fields ← j.fields? engineFieldNames
  let action ← Json.field? fields actionField (some defaults.actionTimeout) Json.natural?
  let condition ← Json.field? fields conditionField (some defaults.conditionTimeout) Json.natural?
  let loop ← Json.field? fields loopField (some defaults.loopTimeout) Json.natural?
  let onFailure ←
    Json.field? fields failureField (some defaults.onFailure) FailurePolicy.ofJson?
  some ⟨action, condition, loop, onFailure⟩

def Source.ofJson? (j : Json) : Option Source := do
  let fields ← j.fields? sourceFieldNames
  let urnPrefix ← Json.field? fields prefixField none Json.text?
  let scenarios ← Json.field? fields scenariosField none Json.text?
  let simulateLatency ← Json.field? fields latencyField (some false) Json.bool?
  some ⟨urnPrefix, ⟨scenarios⟩, simulateLatency⟩

/-- Reads sources by name. The last source of a name counts. -/
def sourcesOfJson? (j : Json) : Option (Dict String Source) := do
  let members ← j.members?
  let entries ← members.mapM fun m => (Source.ofJson? m.2).map (m.1, ·)
  some (Dict.ofList entries)

def ofJson? (j : Json) : Option Config := do
  let fields ← j.fields? fieldNames
  let schema ← Json.field? fields schemaField (some supportedSchema) Json.text?
  let engine ← Json.field? fields engineField (some {}) Engine.ofJson?
  let backends ← Json.field? fields backendsField (some ∅) sourcesOfJson?
  some ⟨schema, engine, backends⟩

/-! ### Writing -/

def Engine.toJson (e : Engine) : Json :=
  .object [(actionField, .ofNat e.actionTimeout), (conditionField, .ofNat e.conditionTimeout),
    (loopField, .ofNat e.loopTimeout), (failureField, .string e.onFailure.text)]

def Source.toJson (s : Source) : Json :=
  .object [(prefixField, .string s.urnPrefix), (scenariosField, .string s.scenarios.text),
    (latencyField, .bool s.simulateLatency)]

def toJson (c : Config) : Json :=
  .object [(schemaField, .string c.schema), (engineField, c.engine.toJson),
    (backendsField, .object (c.backends.entries.map fun e => (e.1, e.2.toJson)))]

end Config

end Runbook
