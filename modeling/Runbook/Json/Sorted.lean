import Runbook.Dict
import Runbook.Json

/-!
# JSON values with sorted members

`Json.sorted` puts the members of all objects into the order of their names.
-/

namespace Runbook.Json

mutual

/-- The same value with sorted members. The last member of a name counts. -/
def sorted : Json → Json
  | null => null
  | bool b => bool b
  | number n => number n
  | string s => string s
  | array items => array (sortedItems items)
  | object members => object (Dict.ofList (sortedMembers members)).entries
  | unreadable => unreadable

def sortedItems : List Json → List Json
  | [] => []
  | j :: rest => j.sorted :: sortedItems rest

def sortedMembers : List (String × Json) → List (String × Json)
  | [] => []
  | (name, j) :: rest => (name, j.sorted) :: sortedMembers rest

end

end Runbook.Json
