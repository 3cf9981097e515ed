import Runbook.Issue
import Runbook.Json

/-!
# Issues as JSON

An issue is an object, or an array of all its fields in the order of `Issue.fieldNames`. An object
may leave out the fields that are optional, an array has `null` in their place. A severity is its
name, alone or as the name of a member that is `null`; a segment of a location is an object with
one member, `Key` or `Index`.
-/

namespace Runbook

/-! ### Locations -/

namespace Segment

def toJson : Segment → Json
  | key name => .object [("Key", .string name)]
  | index position => .object [("Index", .ofNat position)]

def ofJson? : Json → Option Segment
  | .object [("Key", j)] => j.text?.map key
  | .object [("Index", j)] => j.natural?.map index
  | _ => none

end Segment

namespace Location

def fieldNames : List String := ["segments"]

def toJson (l : Location) : Json := .object [("segments", .array (l.segments.map Segment.toJson))]

def ofJson? (j : Json) : Option Location := do
  let fields ← j.fields? fieldNames
  let segments ← Json.field? fields "segments" none (Json.list? Segment.ofJson?)
  some ⟨segments⟩

end Location

/-! ### Issues -/

def Severity.ofJson? : Json → Option Severity
  | .string s => Severity.ofText? s
  | .object [(s, .null)] => Severity.ofText? s
  | _ => none

namespace Issue

def fieldNames : List String :=
  ["kind", "severity", "node_id", "field_path", "message", "reference"]

/-- A member for an optional text, if there is one. -/
def optionalMember (name : String) : Option String → List (String × Json)
  | some s => [(name, .string s)]
  | none => []

def toJson (i : Issue) : Json :=
  .object ([("kind", .string i.kind), ("severity", .string i.severity.text)] ++
    optionalMember "node_id" i.nodeId ++
    [("field_path", i.location.toJson), ("message", .string i.message)] ++
    optionalMember "reference" i.reference)

def ofJson? (j : Json) : Option Issue := do
  let fields ← j.allFields? fieldNames
  let kind ← Json.field? fields "kind" none Json.text?
  let severity ← Json.field? fields "severity" none Severity.ofJson?
  let nodeId ← Json.field? fields "node_id" (some none) (Json.optional? Json.text?)
  let location ← Json.field? fields "field_path" none Location.ofJson?
  let message ← Json.field? fields "message" none Json.text?
  let reference ← Json.field? fields "reference" (some none) (Json.optional? Json.text?)
  some ⟨kind, severity, nodeId, location, message, reference⟩

end Issue

end Runbook
