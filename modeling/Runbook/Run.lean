import Runbook.Graph
import Runbook.Run.Failure
import Runbook.Run.Machine

/-!
# Running a graph

`Execution.start` runs the nodes of a graph one after the other, each in the stack of scopes that
surrounds it, and ends with the first failure.

* An action waits for its parameters, is called, and exports outputs to all scopes around it.
* A choice waits for the references of its condition and runs one of its branches.
* A loop waits for its elements and runs its body for each of them, in a new scope on top of the
  stack. What the failure of an iteration does to the loop is a matter of `FailurePolicy`.

No node starts, and no iteration begins, once the tree of scopes is cancelled.
-/

namespace Runbook

/-- What a loop does when an iteration fails. -/
inductive FailurePolicy where
  /-- Goes on with the next element. -/
  | proceed
  /-- Fails as well. -/
  | halt
  deriving Repr, DecidableEq, Inhabited

def FailurePolicy.text : FailurePolicy → String
  | proceed => "continue"
  | halt => "halt"

def FailurePolicy.ofText? : String → Option FailurePolicy
  | "continue" => some proceed
  | "halt" => some halt
  | _ => none

/-- How long nodes wait, in milliseconds, and what failed iterations do. A limit that is too long
for the clock never elapses: `Machine.Within` says which runs a clock has. -/
structure Options where
  actionLimit : Nat := 1000000
  conditionLimit : Nat := 100000
  loopLimit : Nat := 120000
  onFailure : FailurePolicy := .proceed
  deriving Repr, DecidableEq

/-- A graph with all that it takes to run it. -/
structure Execution where
  graph : Graph
  backend : Backend
  options : Options := {}

/-- Where a node runs. -/
structure Frame where
  stack : Stack
  /-- The iterations around the node, the outermost first. -/
  path : List (String × Nat)

/-- A part of a run: it changes the machine and may fail. -/
abbrev Run := ExceptT Failure (StateM Machine)

namespace Run

/-! ### Single steps -/

/-- Changes the innermost scope. -/
def record (frame : Frame) (c : Change) : Run Unit := modify fun m => m.change frame.stack.top c

/-- Fails, after a change that puts the failure on record. -/
def failWith {α : Type} (frame : Frame) (c : Change) (f : Failure) : Run α := do
  record frame c
  throw f

def isCancelled (frame : Frame) : Run Bool := do return frame.stack.isCancelled (← get).store

/-- Waits for what `token` stands for. `onFail` puts it on record if it does not come. -/
def await (frame : Frame) (node : String) (limit : Nat) (onFail : String → Change)
    (token : String) : Run Value := do
  let (answer, m) := (← get).await frame.stack ⟨node, frame.path⟩ limit token
  set m
  match answer with
  | .ok v => pure v
  | .error e =>
    let f := Failure.ofWait node e
    failWith frame (onFail f.recordText) f

/-- The result of a part of a run, whether it fails or not. -/
def attempt {α : Type} (r : Run α) : Run (Except Failure α) := ExceptT.lift r.run

/-! ### Actions -/

/-- The text given to an action for a parameter. -/
def parameter (x : Execution) (frame : Frame) (id token : String) : Run String := do
  if Reference.needsLookup token then
    let v ← await frame id x.options.actionLimit (.failAction id) token
    return v.text
  else return token

/-- All parameters of an action, in the order of their names. -/
def parameters (x : Execution) (frame : Frame) (id : String) (declared : Dict String String) :
    Run (Dict String String) :=
  declared.entries.foldlM
    (fun d p => do return d.insert p.1 (← parameter x frame id p.2)) ∅

/-- The output that an export selects to mean the whole payload. -/
def payloadName : String := "result"

/-- The values that an action exports. An output field that is not there is not exported. -/
def exportsOf (declared : Dict String String) (result : ActionResult) : Dict String Value :=
  declared.filterMap fun _ output =>
    if output = payloadName then some (.scalar result.raw)
    else (result.fields.get? output).map .scalar

/-- Calls an action, and lets happen what happens meanwhile. -/
def call (x : Execution) (frame : Frame) (id : String) (c : ActionCall) : Run ActionResult := do
  -- The count goes up before the answer is there, so a call that fails is counted as well.
  modify Machine.countExecution
  let answer := x.backend (← get).calls c
  modify fun m => (m.recordCall frame.stack.top id c answer).meanwhile ⟨id, frame.path⟩
  match answer with
  | .ok result => pure result
  | .error e =>
    let f := Failure.actionFailed id e
    failWith frame (.failAction id f.recordText) f

def runAction (x : Execution) (frame : Frame) (id urn : String)
    (params exports : Dict String String) : Run Unit := do
  record frame (.startAction id)
  let inputs ← parameters x frame id params
  -- Nothing is on record of the parameters before all of them are there.
  record frame (.recordParams id inputs true)
  let result ← call x frame id ⟨urn, inputs⟩
  let values := exportsOf exports result
  -- Exports are there before the action counts as done.
  modify fun m => m.publish frame.stack values
  record frame (.completeAction id result values)

/-! ### Choices -/

/-- Binds the references of a condition one after the other, and lists their texts for the
record. -/
def bindAll (x : Execution) (frame : Frame) (id : String) (c : Condition) :
    Run (Condition × Dict String String) :=
  c.comparison.references.foldlM
    (fun (c, used) token => do
      let v ← await frame id x.options.conditionLimit (.failChoice id) token
      -- What is bound and what is listed grow together.
      return (c.bind token v, used.insert token v.text))
    (c, ∅)

/-- The outcome of a choice. -/
def decideOutcome (x : Execution) (frame : Frame) (id condition : String) : Run Bool := do
  record frame (.startChoice id)
  match Condition.parse condition with
  | .error e =>
    let f := Failure.conditionMalformed id e
    failWith frame (.failChoice id f.recordText) f
  | .ok c =>
    let (c, used) ← bindAll x frame id c
    match c.evaluate with
    | .error e =>
      let f := Failure.conditionUndecidable id condition e
      failWith frame (.failChoice id f.recordText) f
    | .ok outcome =>
      record frame (.decideChoice id outcome used)
      return outcome

/-! ### Loops -/

/-- Fails a loop. -/
def failLoop {α : Type} (frame : Frame) (id : String) (f : Failure) : Run α :=
  failWith frame (.failLoop id f.recordText) f

/-- The frame of a new iteration, whose scope knows the element by its name. -/
def openIteration (frame : Frame) (id : String) (itemAs : Option String) (index : Nat)
    (value : Value) : Run Frame := do
  let (stack, m) := (← get).pushChild frame.stack
  set m
  let inner : Frame := ⟨stack, frame.path ++ [(id, index)]⟩
  record frame (.startIteration id index value stack.top)
  -- The element is exported to the new scope only, not to those around it.
  match itemAs with
  | some name => record inner (.publish (.singleton name value))
  | none => pure ()
  return inner

/-- Runs one iteration and closes its scope. A cancelled iteration stays open. -/
def iterate (x : Execution) (frame : Frame) (id : String) (itemAs : Option String)
    (body : Frame → Run Unit) (index : Nat) (value : Value) : Run Unit := do
  -- A cancelled loop opens no further scope.
  if ← isCancelled frame then failLoop frame id .cancelled
  let inner ← openIteration frame id itemAs index value
  match ← attempt (body inner) with
  | .ok () => record inner .close
  -- The scope stays open, whatever the policy.
  | .error .cancelled => failLoop frame id .cancelled
  | .error f =>
    record inner (.closeWithError f.message)
    match x.options.onFailure with
    | .proceed => pure ()
    | .halt => failLoop frame id (.iterationFailed id index f)

/-- Runs the iterations for the given elements, the first of them with number `index`. -/
def iterateAll (x : Execution) (frame : Frame) (id : String) (itemAs : Option String)
    (body : Frame → Run Unit) (index : Nat) : List Value → Run Unit
  | [] => pure ()
  | v :: rest => do
    iterate x frame id itemAs body index v
    iterateAll x frame id itemAs body (index + 1) rest

def runLoop (x : Execution) (frame : Frame) (id elements : String) (itemAs : Option String)
    (body : Frame → Run Unit) : Run Unit := do
  record frame (.startLoop id true)
  let v ← await frame id x.options.loopLimit (.failLoop id) elements
  iterateAll x frame id itemAs body 1 v.expand
  record frame (.finishLoop id)

/-! ### Nodes -/

mutual

def runNode (x : Execution) (frame : Frame) : Node → Run Unit
  | .action id urn params exports => runAction x frame id urn params exports
  | .choice id condition yes no => do
    if ← decideOutcome x frame id condition then runNodes x frame yes else runNodes x frame no
  | .loop id elements itemAs body =>
    runLoop x frame id elements itemAs fun inner => runNodes x inner body

/-- Runs nodes one after the other. -/
def runNodes (x : Execution) (frame : Frame) : List Node → Run Unit
  | [] => pure ()
  | n :: rest => do
    if ← isCancelled frame then throw .cancelled
    runNode x frame n
    runNodes x frame rest

end

end Run

/-! ### Whole runs -/

inductive Status where
  | completed
  | halted
  | cancelled
  deriving Repr, DecidableEq

def Status.text : Status → String
  | completed => "completed"
  | halted => "halted"
  | cancelled => "cancelled"

/-- How a run ended. -/
abbrev Outcome := Except Failure Unit

def Outcome.status : Outcome → Status
  | .ok () => .completed
  | .error .cancelled => .cancelled
  | .error _ => .halted

def Outcome.failure? : Outcome → Option Failure
  | .ok () => none
  | .error f => some f

/-- The change of the root scope at the end of a run. -/
def Outcome.closing : Outcome → Change
  | .ok () => .close
  | .error f => .closeWithError f.message

/-- Runs a graph on a machine and closes the root scope. -/
def Execution.start (x : Execution) (m : Machine) : Outcome × Machine :=
  let (outcome, m) := (Run.runNodes x ⟨.of m.root, []⟩ x.graph.nodes).run.run m
  (outcome, m.change m.root (Outcome.closing outcome))

end Runbook
