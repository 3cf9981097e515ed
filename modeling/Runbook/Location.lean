/-!
# Locations in a document

A `Location` is the way from the root of a document to one of its parts, shown as
`$[0].onTrue[1].urn`. Locations are ordered segment by segment; a key comes before an index and a
location before those that continue it.
-/

namespace Runbook

/-- One step down: into a field, or to an element of a list. -/
inductive Segment where
  | key (name : String)
  | index (position : Nat)
  deriving Repr, DecidableEq, Ord

structure Location where
  segments : List Segment
  deriving Repr, DecidableEq, Ord

namespace Location

def root : Location := ⟨[]⟩

instance : Inhabited Location := ⟨root⟩

/-- The field `name` of the part at `l`. -/
def key (l : Location) (name : String) : Location := ⟨l.segments ++ [.key name]⟩

/-- The element at `position` of the part at `l`. -/
def index (l : Location) (position : Nat) : Location := ⟨l.segments ++ [.index position]⟩

end Location

/-- How a segment is shown. -/
def Segment.text : Segment → String
  | key name => "." ++ name
  | index position => "[" ++ toString position ++ "]"

/-- How a location is shown. -/
def Location.text (l : Location) : String := "$" ++ String.join (l.segments.map Segment.text)

end Runbook
