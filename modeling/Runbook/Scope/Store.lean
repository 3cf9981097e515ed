import Runbook.Scope.Change

/-!
# Stores of scopes

A `Store` holds all scopes by number. Scopes belong to trees: the root of a tree is opened with the
values of an alert, and every other scope is opened empty in the tree of a scope that is already
there. A whole tree is cancelled at once and stays cancelled.

* `Store.openRoot` and `Store.openIn` open scopes,
* `Store.apply` changes one scope and leaves the others alone.
-/

namespace Runbook

/-- A scope and the tree it belongs to. -/
structure Store.Cell where
  tree : Nat
  scope : Scope
  deriving Inhabited

structure Store where
  cells : Array Store.Cell := #[]
  /-- How many trees there are. -/
  trees : Nat := 0
  /-- The trees that are cancelled. -/
  cancelled : List Nat := []

namespace Store

def empty : Store := {}

def size (s : Store) : Nat := s.cells.size

/-- The scope with a number, or an empty one if there is no such scope. -/
def scope (s : Store) (id : ScopeId) : Scope := (s.cells.getD id default).scope

def tree (s : Store) (id : ScopeId) : Nat := (s.cells.getD id default).tree

/-- Opens the root of a new tree. -/
def openRoot (s : Store) (seed : Dict String Value) : ScopeId × Store :=
  (s.size, { s with cells := s.cells.push ⟨s.trees, { seed := seed }⟩, trees := s.trees + 1 })

/-- Opens an empty scope in the tree of another scope. -/
def openIn (s : Store) (parent : ScopeId) : ScopeId × Store :=
  (s.size, { s with cells := s.cells.push ⟨s.tree parent, {}⟩ })

/-- Makes a change to one scope. -/
def apply (s : Store) (id : ScopeId) (c : Change) : Store :=
  { s with cells := s.cells.modify id fun cell => { cell with scope := cell.scope.apply c } }

/-- Cancels the tree of a scope. -/
def cancel (s : Store) (id : ScopeId) : Store := { s with cancelled := s.tree id :: s.cancelled }

def isCancelled (s : Store) (id : ScopeId) : Bool := s.cancelled.contains (s.tree id)

end Store

end Runbook
