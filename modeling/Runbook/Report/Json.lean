import Runbook.Report
import Runbook.Value.Json

/-!
# Reports as JSON

A report is an object with the fields that say something, in a fixed order. Whether an iteration
failed or not, its body is always written.
-/

namespace Runbook.Report

def optionalMember {α : Type} (name : String) (write : α → Json) : Option α → List (String × Json)
  | some a => [(name, write a)]
  | none => []

def tableMember (name : String) (d : Dict String String) : List (String × Json) :=
  if d.isEmpty then [] else [(name, .object (d.entries.map fun e => (e.1, .string e.2)))]

def listMember (name : String) (items : List Json) : List (String × Json) :=
  if items.isEmpty then [] else [(name, .array items)]

mutual

def toJson : Report → Json
  | ⟨id, kind, urn, params, exports, condition, iterateOn, progress, error, given, raw, fields,
      outcome, used, onTrue, onFalse, iterations⟩ =>
    .object (optionalMember "id" .string id ++
      [("type", .string kind), ("state", .string progress.text)] ++
      optionalMember "error" .string error ++ optionalMember "urn" .string urn ++
      tableMember "params" params ++ tableMember "concreteParams" given ++
      optionalMember "resultRaw" .string raw ++ tableMember "resultFields" fields ++
      tableMember "exports" exports ++ optionalMember "condition" .string condition ++
      optionalMember "conditionEvaluatedTo" .bool outcome ++
      tableMember "varsResolvedValues" used ++ listMember "onTrue" (listToJson onTrue) ++
      listMember "onFalse" (listToJson onFalse) ++
      optionalMember "iterateOn" .string iterateOn ++
      listMember "iterations" (passesToJson iterations))

def listToJson : List Report → List Json
  | [] => []
  | r :: rest => r.toJson :: listToJson rest

def passesToJson : List (Pass Report) → List Json
  | [] => []
  | ⟨index, value, error, body⟩ :: rest =>
    .object ([("index", .ofInt index), ("value", value.toJson)] ++
      optionalMember "error" .string error ++ [("body", .array (listToJson body))]) ::
        passesToJson rest

end

end Runbook.Report
