import Runbook.Action

/-!
# Routing calls

A `Router` hands a call to the backend registered under the longest prefix of the urn. Prefixes are
as long as their UTF-8 bytes. A call has no route if no prefix fits, and none either if two backends
are registered under the longest one.
-/

namespace Runbook

/-- A backend under the prefix of the urns it answers for. -/
structure Registration where
  name : String
  urnPrefix : String
  answer : ActionCall → Except ActionError ActionResult

structure Router where
  /-- In the order of registration. -/
  registrations : List Registration

namespace Registration

/-- Whether the urn begins with the prefix. -/
def fits (r : Registration) (urn : String) : Bool := r.urnPrefix.toList.isPrefixOf urn.toList

def length (r : Registration) : Nat := r.urnPrefix.utf8ByteSize

end Registration

namespace Router

def empty : Router := ⟨[]⟩

def register (r : Router) (registration : Registration) : Router :=
  ⟨r.registrations ++ [registration]⟩

/-- The registrations that fit an urn, with their positions. -/
def fitting (r : Router) (urn : String) : List (Nat × Registration) :=
  r.registrations.zipIdx.filterMap fun p => if p.1.fits urn then some (p.2, p.1) else none

/-- The length of the longest prefix among some registrations. -/
def longest (l : List (Nat × Registration)) : Nat := l.foldl (fun n p => max n p.2.length) 0

/-- The position of the registration that answers for an urn. -/
def route (r : Router) (urn : String) : Except ActionError Nat :=
  let fitting := r.fitting urn
  match fitting.filter (fun p => p.2.length == longest fitting) with
  | [] => .error (.noRoute urn)
  | [p] => .ok p.1
  | p :: q :: rest =>
    .error (.ambiguousRoute urn p.2.urnPrefix ((p :: q :: rest).map fun p => p.2.name))

def execute (r : Router) (call : ActionCall) : Except ActionError ActionResult := do
  let i ← r.route call.urn
  match r.registrations[i]? with
  | some registration => registration.answer call
  | none => .error (.noRoute call.urn)

def backend (r : Router) : Backend := fun _ call => r.execute call

end Router

end Runbook
