import Runbook.Scope.Store

/-!
# Stacks of scopes

A `Stack` is the nesting of scopes that a node runs in, the innermost on top. Values are looked up
from the top down and exported to all scopes of the stack.

* `Stack.lookup` takes the first scope that knows a token,
* `Stack.publish` writes values into every scope of the stack.
-/

namespace Runbook

structure Stack where
  /-- The innermost scope. -/
  top : ScopeId
  /-- The scopes around it, the innermost first. -/
  below : List ScopeId
  deriving Repr, DecidableEq

/-- Why waiting for a value ended without one. -/
inductive WaitError where
  /-- The value did not come within `limit` milliseconds. -/
  | timedOut (token : String) (limit : Nat)
  | cancelled (token : String)
  deriving Repr, DecidableEq

/-- The digits of a fraction in thousands, without zeros at the end. -/
def WaitError.thousandths (n : Nat) : String :=
  let digits := [n / 100, n / 10 % 10, n % 10]
  String.join ((digits.reverse.dropWhile (· == 0)).reverse.map toString)

/-- A number of milliseconds in the largest unit of which it has one. -/
def WaitError.durationText (ms : Nat) : String :=
  if ms = 0 then "0ns"
  else if ms < 1000 then toString ms ++ "ms"
  else
    let rest := thousandths (ms % 1000)
    toString (ms / 1000) ++ (if rest.isEmpty then "" else "." ++ rest) ++ "s"

def WaitError.message : WaitError → String
  | timedOut token limit =>
    "timed out after " ++ durationText limit ++ " waiting for `" ++ token ++ "`"
  | cancelled token => "execution cancelled while waiting for `" ++ token ++ "`"

namespace Stack

/-- The stack of a single scope. -/
def of (scope : ScopeId) : Stack := ⟨scope, []⟩

/-- The scopes of a stack, the innermost first. -/
def scopes (s : Stack) : List ScopeId := s.top :: s.below

def depth (s : Stack) : Nat := s.scopes.length

/-- Puts a scope on top. -/
def push (s : Stack) (scope : ScopeId) : Stack := ⟨scope, s.scopes⟩

/-- Puts a new empty scope on top. -/
def pushChild (s : Stack) (store : Store) : Stack × Store :=
  let (child, store) := store.openIn s.top
  (s.push child, store)

/-- What a token stands for in the innermost scope that knows it. -/
def lookup (s : Stack) (store : Store) (token : String) : Option Value :=
  s.scopes.findSome? fun id => (store.scope id).lookup token

/-- Writes values into every scope; without values nothing changes. -/
def publish (s : Stack) (store : Store) (values : Dict String Value) : Store :=
  if values.isEmpty then store
  else s.scopes.foldr (fun id store => store.apply id (.publish values)) store

def isCancelled (s : Stack) (store : Store) : Bool := store.isCancelled s.top

end Stack

end Runbook
