import Runbook.Step
import Runbook.Text.Blank

/-!
# Generated ids

Steps may be written without an id. An `IdSource` supplies decimal numbers in increasing order,
modulo `2 ^ 64`; one source is handed on from document to document, so its numbers are never
supplied twice before it wraps around.

* `IdSource.take` supplies the next id,
* `IdSource.fill` gives an id to every step of a document that has none.
-/

namespace Runbook

structure IdSource where
  /-- The number supplied next. -/
  next : UInt64
  deriving Repr, DecidableEq

namespace IdSource

/-- The source of a fresh document. -/
def fresh : IdSource := ⟨1⟩

def take (ids : IdSource) : String × IdSource := (toString ids.next.toNat, ⟨ids.next + 1⟩)

/-- The id a step was written with, less the blanks around it; a blank id counts as none. -/
def authored? (id : Option String) : Option String :=
  match id with
  | none => none
  | some s => if Text.isBlankText s then none else some (Text.trim s)

mutual

/-- Gives ids to a step and to the steps inside it, each before its parts. -/
def fillStep (ids : IdSource) : Step → Step × IdSource
  | ⟨id, kind, urn, params, exports, condition, onTrue, onFalse, iterateOn, itemAs, body⟩ =>
    let (id, ids) :=
      if (authored? id).isSome then (id, ids) else (some ids.take.1, ids.take.2)
    let (onTrue, ids) := fill ids onTrue
    let (onFalse, ids) := fill ids onFalse
    let (body, ids) := fill ids body
    (⟨id, kind, urn, params, exports, condition, onTrue, onFalse, iterateOn, itemAs, body⟩, ids)

/-- Gives ids to all steps of a document that have none. -/
def fill (ids : IdSource) : List Step → List Step × IdSource
  | [] => ([], ids)
  | s :: rest =>
    let (s, ids) := fillStep ids s
    let (rest, ids) := fill ids rest
    (s :: rest, ids)

end

end IdSource

end Runbook
