import Runbook.Dict
import Runbook.Json.Printer
import Runbook.Json.Reader
import Runbook.Value.Json

/-!
# Alert data

An alert hands named values to a runbook. They are written as a JSON object whose members are texts,
lists of texts, numbers or truth values; numbers and truth values stand for their texts.
-/

namespace Runbook.AlertData

/-- The value of a member. -/
def valueOfJson? : Json → Option Value
  | .number n => some (.scalar n.text)
  | .bool b => some (.scalar (if b then "true" else "false"))
  | j => Value.ofJson? j

/-- Reads an object of values. The last member of a name counts. -/
def ofJson? (j : Json) : Option (Dict String Value) := do
  let members ← j.members?
  let entries ← members.mapM fun m => (valueOfJson? m.2).map (m.1, ·)
  some (Dict.ofList entries)

/-- The values a JSON text describes. -/
def parse? (text : String) : Option (Dict String Value) := (Json.parse text).bind ofJson?

end Runbook.AlertData
