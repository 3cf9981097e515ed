import Runbook.Json
import Runbook.Value

/-!
# Values as JSON

A single text is a string, a list of texts an array of strings.
-/

namespace Runbook.Value

def toJson : Value → Json
  | scalar s => .string s
  | list items => .array (items.map .string)

def ofJson? : Json → Option Value
  | .string s => some (scalar s)
  | .array items => (items.mapM Json.text?).map list
  | _ => none

end Runbook.Value
