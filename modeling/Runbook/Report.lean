import Runbook.Scope.Store
import Runbook.Step

/-!
# Status reports

A report repeats the steps of a document, each with what a scope has on record for it.

* A step without a record is reported as not started, with all steps inside it.
* Of a choice, only the branch it chose is looked up in the scope.
* A loop has one report of its body for each iteration, from the scope of the iteration.

`Report.annotate` recurses over the document alone, so it ends for every content of the scopes.
-/

namespace Runbook

inductive Progress where
  | notStarted
  | waiting
  | running
  | done
  deriving Repr, DecidableEq

def Progress.text : Progress → String
  | notStarted => "Not-Yet-Started"
  | waiting => "Waiting-Var-Resolution"
  | running => "Running"
  | done => "Done"

/-- The progress that a record shows. -/
def Progress.of (isDone isWaiting : Bool) : Progress :=
  if isDone then done else if isWaiting then waiting else running

/-- One iteration of a loop, with reports of type `α` for the steps of its body. -/
structure Pass (α : Type) where
  index : Int
  value : Value
  error : Option String
  body : List α

/-- A step and what became of it. -/
structure Report where
  id : Option String
  kind : String
  urn : Option String
  params : Dict String String
  exports : Dict String String
  condition : Option String
  iterateOn : Option String
  progress : Progress := .notStarted
  error : Option String := none
  /-- The parameters as they were given to the action. -/
  given : Dict String String := ∅
  /-- The payload of an action, unless it is empty. -/
  raw : Option String := none
  /-- The output fields of an action with an empty payload. -/
  fields : Dict String String := ∅
  outcome : Option Bool := none
  /-- The texts of the references that a choice compared. -/
  used : Dict String String := ∅
  onTrue : List Report := []
  onFalse : List Report := []
  iterations : List (Pass Report) := []

namespace Report

mutual

/-- The report of a step that was not started. -/
def untouched : Step → Report
  | ⟨id, kind, urn, params, exports, condition, onTrue, onFalse, iterateOn, _, _⟩ =>
    { id := id
      kind := kind.getD Step.executeKind
      urn := urn
      params := params
      exports := exports
      condition := condition
      iterateOn := iterateOn
      onTrue := untouchedAll onTrue
      onFalse := untouchedAll onFalse }

def untouchedAll : List Step → List Report
  | [] => []
  | s :: rest => untouched s :: untouchedAll rest

end

/-! ### What the records say -/

def withAction (r : Report) (a : ActionRecord) : Report :=
  let r := { r with progress := .of a.done a.waiting, error := a.error, given := a.params }
  match a.result with
  | none => r
  | some result =>
    -- The fields are shown only where there is no payload to show.
    if result.raw.isEmpty then { r with fields := result.fields }
    else { r with raw := some result.raw }

/-- A choice that is not done waits for its references. -/
def withChoice (r : Report) (c : ChoiceRecord) : Report :=
  { r with progress := .of c.done true, error := c.error, outcome := c.outcome, used := c.used }

def withLoop (r : Report) (l : LoopRecord) : Report :=
  { r with progress := .of l.done l.waiting, error := l.error }

mutual

/-- The report of a step from the records of a scope. -/
def annotateStep (store : Store) (scope : ScopeId) : Step → Report
  | ⟨id, kind, urn, params, exports, condition, onTrue, onFalse, iterateOn, itemAs, body⟩ =>
    let plain := untouched
      ⟨id, kind, urn, params, exports, condition, onTrue, onFalse, iterateOn, itemAs, body⟩
    let known := store.scope scope
    -- A step without an id is looked up by the empty one.
    let node := id.getD ""
    if plain.kind = Step.executeKind then
      match known.actions.get? node with
      | some a => plain.withAction a
      | none => plain
    else if plain.kind = Step.ifKind then
      match known.choices.get? node with
      | some c =>
        let r := plain.withChoice c
        match c.outcome with
        | some true => { r with onTrue := annotate store scope onTrue }
        | some false => { r with onFalse := annotate store scope onFalse }
        | none => r
      | none => plain
    else if plain.kind = Step.forKind then
      match known.loops.get? node with
      | some l =>
        { plain.withLoop l with
          iterations := l.iterations.entries.map fun e =>
            ⟨e.1, e.2.value, (store.scope e.2.scope).error, annotate store e.2.scope body⟩ }
      | none => plain
    else plain

/-- The reports of the steps of a document from the records of a scope. -/
def annotate (store : Store) (scope : ScopeId) : List Step → List Report
  | [] => []
  | s :: rest => annotateStep store scope s :: annotate store scope rest

end

end Report

end Runbook
