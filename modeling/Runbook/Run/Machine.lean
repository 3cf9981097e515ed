import Runbook.Scope.Stack

/-!
# The state of a run

A `Machine` is what a run has done so far: its scopes, the events that are still to come and a
journal of everything that happened.

A run is a single sequence of steps. What other parties do meanwhile enters it where the run leaves
the word to others, that is where it has to wait and where it calls an action: an event happens when
the run is at the place that the event is meant for. If no event ends a wait, nothing can do so but
its limit.

A machine has no clock. It puts on record which limits have ended a wait, since a limit that is too
long for the clock never does: whoever waits that long goes on waiting. A clock that shows no more
than some number of milliseconds therefore has only those runs that stay `Machine.Within` it.

* `Machine.await` waits for a value,
* `Machine.meanwhile` lets events happen while an action is called,
* `Machine.Within` says of which clocks a run is one,
* `Machine.calls` lists the calls of actions, the latest first.
-/

namespace Runbook

/-! ### Events -/

/-- Where a run waits or calls an action: a node, and the iterations around it as loops and numbers,
the outermost first. -/
structure Site where
  node : String
  path : List (String × Nat)
  deriving Repr, DecidableEq

/-- When an event happens. -/
inductive Trigger where
  | anyWait
  | waitAt (site : Site)
  /-- While an action is called. -/
  | callAt (site : Site)
  deriving Repr, DecidableEq

/-- Whether an event happens while a node waits. -/
def Trigger.fits : Trigger → Site → Bool
  | anyWait, _ => true
  | waitAt site, other => site == other
  | callAt _, _ => false

/-- Whether an event happens while a node calls its action. -/
def Trigger.fitsCall : Trigger → Site → Bool
  | callAt site, other => site == other
  | _, _ => false

inductive Effect where
  /-- Exports values to the root scope. -/
  | publish (values : Dict String Value)
  | cancel
  deriving DecidableEq

structure Event where
  trigger : Trigger
  effect : Effect
  deriving DecidableEq

/-! ### The journal -/

/-- One thing that happened in a run. -/
inductive Occurrence where
  /-- A scope was opened for an iteration. -/
  | opened (scope : ScopeId)
  | changed (scope : ScopeId) (change : Change)
  /-- Values were exported to several scopes at once. -/
  | published (scopes : List ScopeId) (values : Dict String Value)
  /-- A node called its action. -/
  | called (scope : ScopeId) (node : String) (call : ActionCall)
      (answer : Except ActionError ActionResult)
  /-- A node was waiting for a token when an event happened. -/
  | interrupted (scope : ScopeId) (site : Site) (token : String)
  /-- The tree of scopes was cancelled. -/
  | cancelled

def Occurrence.call? : Occurrence → Option ActionCall
  | called _ _ call _ => some call
  | _ => none

/-! ### Machines -/

structure Machine where
  store : Store
  /-- The scope of the whole runbook. -/
  root : ScopeId
  /-- The events to come. They happen in this order. -/
  schedule : List Event := []
  /-- What happened, the latest first. -/
  journal : List Occurrence := []
  /-- How many calls of actions were begun. The count has no bound, as that of `Scope.version`. -/
  executions : Nat := 0
  /-- The limits that have ended a wait, the latest first. -/
  elapsed : List Nat := []

namespace Machine

/-- The machine before the first run. -/
def fresh (seed : Dict String Value) : Machine :=
  let (root, store) := Store.empty.openRoot seed
  { store := store, root := root }

/-- The calls made so far, the latest first. -/
def calls (m : Machine) : List ActionCall := m.journal.filterMap Occurrence.call?

def change (m : Machine) (scope : ScopeId) (c : Change) : Machine :=
  { m with store := m.store.apply scope c, journal := .changed scope c :: m.journal }

/-- Exports values to all scopes of a stack. -/
def publish (m : Machine) (stack : Stack) (values : Dict String Value) : Machine :=
  if values.isEmpty then m
  else
    { m with
      store := stack.publish m.store values
      journal := .published stack.scopes values :: m.journal }

def cancel (m : Machine) : Machine :=
  { m with store := m.store.cancel m.root, journal := .cancelled :: m.journal }

/-- Puts a new scope on a stack. -/
def pushChild (m : Machine) (stack : Stack) : Stack × Machine :=
  let (inner, store) := stack.pushChild m.store
  (inner, { m with store := store, journal := .opened inner.top :: m.journal })

def countExecution (m : Machine) : Machine := { m with executions := m.executions + 1 }

/-- Puts a call and its answer on record. -/
def recordCall (m : Machine) (scope : ScopeId) (node : String) (call : ActionCall)
    (answer : Except ActionError ActionResult) : Machine :=
  { m with journal := .called scope node call answer :: m.journal }

/-- Puts on record that a node waits for a token while an event happens. -/
def recordWait (m : Machine) (scope : ScopeId) (site : Site) (token : String) : Machine :=
  { m with journal := .interrupted scope site token :: m.journal }

/-- What an event does. -/
def perform (m : Machine) : Effect → Machine
  | .publish values => m.publish (.of m.root) values
  | .cancel => m.cancel

/-- Performs the first of the events to come, as long as they happen while the node calls its
action. -/
def performDuring (site : Site) (m : Machine) : List Event → Machine
  | [] => { m with schedule := [] }
  | e :: rest =>
    if e.trigger.fitsCall site then performDuring site (m.perform e.effect) rest
    -- Later events do not overtake one that happens elsewhere.
    else { m with schedule := e :: rest }

/-- What others do while a node calls its action. -/
def meanwhile (m : Machine) (site : Site) : Machine := performDuring site m m.schedule

/-! ### Waiting -/

/-- Whether a clock that shows no more than `horizon` milliseconds can show all limits that have
ended a wait. If it cannot, the run does not get this far by that clock: it goes on waiting where
the first limit elapses that is too long. -/
def Within (m : Machine) (horizon : Nat) : Prop := ∀ limit ∈ m.elapsed, limit ≤ horizon

instance (m : Machine) (horizon : Nat) : Decidable (m.Within horizon) :=
  inferInstanceAs (Decidable (∀ _ ∈ _, _))

/-- A limit ends a wait, and `events` are still to come. -/
def elapse (m : Machine) (limit : Nat) (events : List Event) : Machine :=
  { m with schedule := events, elapsed := limit :: m.elapsed }

/-- How waiting for a token ends at once, if it does. -/
def settled? (m : Machine) (stack : Stack) (token : String) : Option (Except WaitError Value) :=
  -- A cancellation is noticed even if the value is there.
  if stack.isCancelled m.store then some (.error (.cancelled token))
  else (stack.lookup m.store token).map .ok

/-- Waits while `events` are the events to come. -/
def awaitDuring (stack : Stack) (site : Site) (limit : Nat) (token : String) (m : Machine)
    (events : List Event) : Except WaitError Value × Machine :=
  match m.settled? stack token, events with
  | some answer, events => (answer, { m with schedule := events })
  -- No event is to come, so nothing but the limit can end the waiting, if anything does.
  | none, [] => (.error (.timedOut token limit), m.elapse limit [])
  | none, e :: rest =>
    if e.trigger.fits site then
      awaitDuring stack site limit token ((m.recordWait stack.top site token).perform e.effect) rest
    -- The next event happens elsewhere, and later events do not overtake it.
    else (.error (.timedOut token limit), m.elapse limit (e :: rest))

/-- Waits until a token stands for a value, the tree is cancelled or nothing more can happen. -/
def await (m : Machine) (stack : Stack) (site : Site) (limit : Nat) (token : String) :
    Except WaitError Value × Machine :=
  awaitDuring stack site limit token m m.schedule

end Machine

end Runbook
