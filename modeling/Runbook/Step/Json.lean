import Runbook.Json
import Runbook.Step

/-!
# Documents as JSON

`Step.toJson` writes a step with the fields that say something. `Step.ofJson?` reads a step from an
object, or from an array that lists its fields in the order of `Step.Field.all`.

Fields with unknown names are skipped, a known field may occur once, and the entries of `params`
and `exports` may be numbers and truth values, which stand for their texts.
-/

namespace Runbook.Step

open Runbook (Json)

/-! ### Writing -/

/-- A member for an optional text, if there is one. -/
def textMember (name : String) : Option String → List (String × Json)
  | some s => [(name, .string s)]
  | none => []

/-- A member for texts by name, if there are any. -/
def tableMember (name : String) (d : Dict String String) : List (String × Json) :=
  if d.isEmpty then [] else [(name, .object (d.entries.map fun e => (e.1, .string e.2)))]

/-- A member for a list of written steps, if there are any. -/
def blockMember (name : String) (steps : List Json) : List (String × Json) :=
  if steps.isEmpty then [] else [(name, .array steps)]

mutual

def toJson : Step → Json
  | ⟨id, kind, urn, params, exports, condition, onTrue, onFalse, iterateOn, itemAs, body⟩ =>
    .object (textMember "id" id ++ textMember "type" kind ++ textMember "urn" urn ++
      tableMember "params" params ++ tableMember "exports" exports ++
      textMember "condition" condition ++ blockMember "onTrue" (listToJson onTrue) ++
      blockMember "onFalse" (listToJson onFalse) ++ textMember "iterateOn" iterateOn ++
      textMember "itemAs" itemAs ++ blockMember "body" (listToJson body))

def listToJson : List Step → List Json
  | [] => []
  | s :: rest => s.toJson :: listToJson rest

end

/-! ### Reading -/

/-- The text that an entry of a table stands for: integers of 64 bits with sign keep their digits,
other numbers are written as doubles. -/
def entryText? : Json → Option String
  | .string s => some s
  | .number (.integer n) =>
    if n ≤ Text.int64Max then some (toString n)
    else (Decimal.Binary64.ofInt n).map Decimal.Notation.plain.write
  | .number (.real x) => some (Decimal.Notation.plain.write x)
  | .bool b => some (if b then "true" else "false")
  | _ => none

/-- A table; the last entry of a name counts. -/
def table? (j : Json) : Option (Dict String String) := do
  let members ← j.members?
  let entries ← members.mapM fun m => (entryText? m.2).map (m.1, ·)
  some (Dict.ofList entries)

mutual

def ofJson? : Json → Option Step
  | .object members => ofMembers? members
  | .array items => ofItems? Field.all items
  | _ => none

/-- Reads the members of an object, the last ones first. -/
def ofMembers? : List (String × Json) → Option Step
  | [] => some {}
  | (name, j) :: rest => do
    let s ← ofMembers? rest
    match Field.ofName? name with
    | none => some s
    | some field => if rest.any (fun m => m.1 == name) then none else setField? s field j

/-- Reads the items of an array as the given fields, the last ones first. -/
def ofItems? : List Field → List Json → Option Step
  | _, [] => some {}
  | [], _ :: _ => none
  | field :: fields, j :: rest => do
    let s ← ofItems? fields rest
    setField? s field j

/-- Reads the value of one field. -/
def setField? (s : Step) (field : Field) (j : Json) : Option Step :=
  match field with
  | .text f => (j.optional? Json.text?).map (s.setText · f)
  | .table f => (table? j).map (s.setTable · f)
  | .block f => (block? j).map (s.setBlock · f)

def block? : Json → Option (List Step)
  | .array items => listOfJson? items
  | _ => none

def listOfJson? : List Json → Option (List Step)
  | [] => some []
  | j :: rest => do
    let s ← ofJson? j
    let steps ← listOfJson? rest
    some (s :: steps)

end

end Runbook.Step
