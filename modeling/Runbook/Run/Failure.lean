import Runbook.Action
import Runbook.Condition
import Runbook.Scope.Stack

/-!
# Failures of a run

A `Failure` is the cause that ended a run, or an iteration of a loop, before its last node. Its
message names the node that failed; the record of that node holds the shorter `recordText`.
-/

namespace Runbook

inductive Failure where
  /-- A reference did not get a value in time. -/
  | dependencyTimeout (node reference : String)
  | actionFailed (node : String) (reason : ActionError)
  /-- A condition has no truth value. -/
  | conditionUndecidable (node expression : String) (reason : EvalError)
  | conditionMalformed (node : String) (reason : ParseError)
  /-- An iteration failed where no iteration may. -/
  | iterationFailed (node : String) (iteration : Nat) (reason : Failure)
  | cancelled
  deriving Repr, DecidableEq

namespace Failure

def message : Failure → String
  | dependencyTimeout node reference =>
    "node `" ++ node ++ "` timed out waiting for `" ++ reference ++ "`"
  | actionFailed node reason => "action node `" ++ node ++ "` failed: " ++ reason.message
  | conditionUndecidable node expression reason =>
    "condition `" ++ expression ++ "` on node `" ++ node ++ "` cannot be evaluated: " ++
      reason.message
  | conditionMalformed node reason =>
    "condition on node `" ++ node ++ "` does not parse: " ++ reason.message
  | iterationFailed node iteration reason =>
    "iteration " ++ toString iteration ++ " of loop `" ++ node ++ "` failed: " ++ reason.message
  | cancelled => "execution cancelled"

/-- What the record of the failed node says. -/
def recordText : Failure → String
  | dependencyTimeout .. => "timed out waiting for dependency"
  | actionFailed _ reason => reason.message
  | conditionUndecidable _ _ reason => "Evaluation failed: " ++ reason.message
  | conditionMalformed _ reason => reason.message
  | f => f.message

/-- What it means for a node that its waiting ended without a value. -/
def ofWait (node : String) : WaitError → Failure
  | .timedOut token _ => dependencyTimeout node token
  | .cancelled _ => cancelled

end Failure

end Runbook
