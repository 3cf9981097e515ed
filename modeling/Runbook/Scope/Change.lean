import Runbook.Scope

/-!
# Changes of a scope

`Scope.apply` makes one change to a scope and raises its version by one. A change addresses a node
by its id; where the scope has no record of the node yet, the change makes one, except that a loop
can only be finished if it was started.
-/

namespace Runbook

inductive Change where
  /-- Starts an action anew. -/
  | startAction (id : String)
  /-- Adds parameters; the action stops waiting when they are all there. -/
  | recordParams (id : String) (values : Dict String String) (all : Bool)
  /-- Ends an action and exports values. -/
  | completeAction (id : String) (result : ActionResult) (exports : Dict String Value)
  | failAction (id error : String)
  | startChoice (id : String)
  | decideChoice (id : String) (outcome : Bool) (used : Dict String String)
  | failChoice (id error : String)
  | startLoop (id : String) (waiting : Bool)
  /-- Ends the current iteration and starts the next one in the scope `child`. -/
  | startIteration (id : String) (index : Int) (value : Value) (child : ScopeId)
  | finishLoop (id : String)
  | failLoop (id error : String)
  | publish (values : Dict String Value)
  | close
  | closeWithError (error : String)
  deriving DecidableEq

namespace Scope

/-! ### Changes of one record -/

def updateAction (s : Scope) (id : String) (f : ActionRecord → ActionRecord) : Scope :=
  { s with actions := s.actions.update id {} f }

def updateChoice (s : Scope) (id : String) (f : ChoiceRecord → ChoiceRecord) : Scope :=
  { s with choices := s.choices.update id {} f }

def updateLoop (s : Scope) (id : String) (f : LoopRecord → LoopRecord) : Scope :=
  { s with loops := s.loops.update id { waiting := false } f }

/-- Exported values win over older ones. -/
def addExports (s : Scope) (values : Dict String Value) : Scope :=
  { s with exported := s.exported.extend values }

/-! ### All changes -/

/-- What a change does to records, exports and the end of a scope. -/
def change (s : Scope) : Change → Scope
  | .startAction id => { s with actions := s.actions.insert id { waiting := true } }
  | .recordParams id values all =>
    s.updateAction id fun r =>
      { r with params := r.params.extend values, waiting := r.waiting && !all }
  | .completeAction id result exports =>
    (s.updateAction id fun r =>
      { r with done := true, waiting := false, result := some result }).addExports exports
  | .failAction id error =>
    s.updateAction id fun r => { r with done := true, waiting := false, error := some error }
  | .startChoice id => { s with choices := s.choices.insert id {} }
  | .decideChoice id outcome used =>
    s.updateChoice id fun r => { r with done := true, outcome := some outcome, used := used }
  | .failChoice id error => s.updateChoice id fun r => { r with done := true, error := some error }
  | .startLoop id waiting => { s with loops := s.loops.insert id { waiting := waiting } }
  | .startIteration id index value child =>
    s.updateLoop id fun r =>
      { r.freeze with waiting := false, index := index, current := some ⟨value, child⟩ }
  | .finishLoop id =>
    if s.loops.contains id then
      s.updateLoop id fun r => { r.freeze with waiting := false, done := true }
    else s
  | .failLoop id error =>
    s.updateLoop id fun r => { r.freeze with waiting := false, done := true, error := some error }
  | .publish values => s.addExports values
  | .close => { s with completed := true }
  | .closeWithError error => { s with completed := true, error := some error }

/-- Makes a change, which counts as one version. -/
def apply (s : Scope) (c : Change) : Scope := { s.change c with version := s.version + 1 }

@[simp]
theorem version_apply (s : Scope) (c : Change) : (s.apply c).version = s.version + 1 := rfl

end Scope

end Runbook
