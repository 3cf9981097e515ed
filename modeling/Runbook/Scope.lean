import Runbook.Action
import Runbook.Reference
import Runbook.Value

/-!
# Scopes

A scope holds what a run knows in one context: the whole runbook, or one iteration of a loop. It
keeps a record for every node that was started there, the variables exported to it and the values
it was seeded with.

* `Scope.lookup` finds the value of a token in one scope. Outputs of an action are found only after
  the action has succeeded.
-/

namespace Runbook

/-- Scopes are numbered in the order in which they are opened. -/
abbrev ScopeId := Nat

/-! ### Records -/

/-- What is known of an action. -/
structure ActionRecord where
  waiting : Bool := false
  done : Bool := false
  error : Option String := none
  /-- The parameters as they are given to the action. -/
  params : Dict String String := ∅
  result : Option ActionResult := none
  deriving DecidableEq

def ActionRecord.succeeded (r : ActionRecord) : Bool := r.done && r.error.isNone

/-- What is known of a choice. -/
structure ChoiceRecord where
  done : Bool := false
  error : Option String := none
  /-- The texts of the references that were compared. -/
  used : Dict String String := ∅
  outcome : Option Bool := none
  deriving DecidableEq

/-- An element of a loop and the scope its body runs in. -/
structure Iteration where
  value : Value
  scope : ScopeId
  deriving DecidableEq

/-- What is known of a loop. Iterations count from 1. -/
structure LoopRecord where
  waiting : Bool
  done : Bool := false
  error : Option String := none
  /-- The number of the current iteration, -1 before the first. -/
  index : Int := -1
  current : Option Iteration := none
  /-- The iterations that are over. -/
  history : Dict Int Iteration := ∅
  deriving DecidableEq

/-- Moves the current iteration into the history. It also stays current. -/
def LoopRecord.freeze (r : LoopRecord) : LoopRecord :=
  match r.current with
  | some i => { r with history := r.history.insert r.index i }
  | none => r

/-- The iterations that are over, and the current one unless its number is taken. -/
def LoopRecord.iterations (r : LoopRecord) : Dict Int Iteration :=
  match r.current with
  | some i => if r.history.contains r.index then r.history else r.history.insert r.index i
  | none => r.history

/-! ### Scopes -/

structure Scope where
  /-- How many changes the scope has seen. The count has no bound here, where a counter of 64 bits
  would overflow after 2^64 changes. -/
  version : Nat := 0
  /-- Whether the scope was closed. -/
  completed : Bool := false
  error : Option String := none
  actions : Dict String ActionRecord := ∅
  choices : Dict String ChoiceRecord := ∅
  loops : Dict String LoopRecord := ∅
  exported : Dict String Value := ∅
  /-- The values of the alert. -/
  seed : Dict String Value := ∅
  deriving DecidableEq, Inhabited

namespace Scope

/-- The result of an action that has succeeded. -/
def resultOf? (s : Scope) (node : String) : Option ActionResult :=
  ((s.actions.get? node).filter ActionRecord.succeeded).bind ActionRecord.result

/-- An output field of an action that has succeeded. -/
def output? (s : Scope) (node field : String) : Option String :=
  (s.resultOf? node).bind fun r => r.fields.get? field

/-- What a reference stands for in this scope. -/
def resolve? (s : Scope) : Reference → Option Value
  | .alert key => s.seed.get? key
  | .exported name => s.exported.get? name
  | .output node .raw => (s.resultOf? node).map fun r => .scalar r.raw
  | .output node (.named field) => (s.output? node field).map .scalar

/-- What a token stands for in this scope. A token that is no reference stands for nothing. -/
def lookup (s : Scope) (token : String) : Option Value := (Reference.parse? token).bind s.resolve?

end Scope

end Runbook
