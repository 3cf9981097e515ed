import Runbook.Action
import Runbook.Json.Reader

/-!
# Canned answers

A `Mock` answers calls from scenarios that are written down beforehand. An entry holds the
scenarios of one urn; the first scenario that matches the inputs answers.

* `Scenario.accepts` compares the declared inputs with those of a call,
* `Mock.ofEntries` lets the last entry of an urn count,
* `Mock.parse?` reads the entries from JSON.
-/

namespace Runbook

/-- An answer and the inputs it is given for. -/
structure Scenario where
  input : Dict String String := ∅
  result : ActionResult := {}
  /-- If not empty, the call fails for this reason. -/
  error : String := ""
  deriving DecidableEq

namespace Scenario

/-- A declared input that any value matches. -/
def wildcard : String := "*"

/-- Whether each declared input is the wildcard or the value of the call, where a value that the
call lacks is empty. -/
def accepts (s : Scenario) (inputs : Dict String String) : Bool :=
  s.input.entries.all fun d => d.2 == wildcard || (inputs.get? d.1).getD "" == d.2

def answer (s : Scenario) (urn : String) : Except ActionError ActionResult :=
  if s.error.isEmpty then .ok s.result else .error (.failed urn s.error)

end Scenario

/-- The scenarios of one urn. -/
structure MockEntry where
  urn : String
  /-- How many seconds a call takes. -/
  duration : Nat := 0
  scenarios : List Scenario := []
  deriving DecidableEq

/-- The entry of each urn. -/
structure Mock where
  entries : Dict String MockEntry
  deriving DecidableEq

namespace Mock

def empty : Mock := ⟨∅⟩

/-- The last entry of an urn replaces the earlier ones. -/
def ofEntries (entries : List MockEntry) : Mock :=
  ⟨Dict.ofList (entries.map fun e => (e.urn, e))⟩

def execute (m : Mock) (call : ActionCall) : Except ActionError ActionResult :=
  match m.entries.get? call.urn with
  | none => .error (.noScenario call.urn)
  | some e =>
    match e.scenarios.find? (fun s => s.accepts call.inputs) with
    | none => .error (.noScenario call.urn)
    | some s => s.answer call.urn

def backend (m : Mock) : Backend := fun _ call => m.execute call

end Mock

/-! ### Scenarios as JSON -/

namespace Scenario

/-- Texts by name; the last text of a name counts. -/
def texts? (j : Json) : Option (Dict String String) := do
  let members ← j.members?
  let entries ← members.mapM fun m => m.2.text?.map (m.1, ·)
  some (Dict.ofList entries)

def fieldNames : List String := ["input", "outputJson", "outputFields", "error"]

mutual

/-- Whether a value has no unreadable part. -/
def readable : Json → Bool
  | .unreadable => false
  | .array items => readableAll items
  | .object members => readableMembers members
  | _ => true

def readableAll : List Json → Bool
  | [] => true
  | j :: rest => readable j && readableAll rest

def readableMembers : List (String × Json) → Bool
  | [] => true
  | (_, j) :: rest => readable j && readableMembers rest

end

/-- Reads a scenario from an object. Members with other names do not matter, but have to be
readable. -/
def ofJson? (j : Json) : Option Scenario := do
  let members ← j.members?
  let fields ← Json.known? fieldNames members
  if !readableMembers members then none
  let input ← Json.field? fields "input" (some ∅) texts?
  let raw ← Json.field? fields "outputJson" (some "") Json.text?
  let outputs ← Json.field? fields "outputFields" (some ∅) texts?
  let error ← Json.field? fields "error" (some "") Json.text?
  some ⟨input, ⟨raw, outputs⟩, error⟩

def textsToJson (d : Dict String String) : Json :=
  .object (d.entries.map fun e => (e.1, .string e.2))

def toJson (s : Scenario) : Json :=
  .object ([("input", textsToJson s.input), ("outputJson", .string s.result.raw),
    ("outputFields", textsToJson s.result.fields)] ++
    (if s.error.isEmpty then [] else [("error", .string s.error)]))

end Scenario

namespace MockEntry

def fieldNames : List String := ["actionUrn", "executionDuration", "scenarios"]

def ofJson? (j : Json) : Option MockEntry := do
  let fields ← j.fields? fieldNames
  let urn ← Json.field? fields "actionUrn" none Json.text?
  let duration ← Json.field? fields "executionDuration" (some 0) Json.natural?
  let scenarios ← Json.field? fields "scenarios" (some []) (Json.list? Scenario.ofJson?)
  some ⟨urn, duration, scenarios⟩

def toJson (e : MockEntry) : Json :=
  .object [("actionUrn", .string e.urn), ("executionDuration", .ofNat e.duration),
    ("scenarios", .array (e.scenarios.map Scenario.toJson))]

end MockEntry

/-- Reads a list of entries. -/
def Mock.entriesOfJson? (j : Json) : Option (List MockEntry) := j.list? MockEntry.ofJson?

/-- The mock a JSON text describes. -/
def Mock.parse? (text : String) : Option Mock :=
  ((Json.parse text).bind Mock.entriesOfJson?).map Mock.ofEntries

end Runbook
