import Runbook.Yaml.Token

/-!
# YAML values

`Yaml` is the tree of a YAML document. Scalars are texts with the style and the tag they were
written with; what they mean is settled by whoever reads them. An alias refers to the node that has
the anchor, which may be a node around the alias.

* `Yaml.Document` is a tree with its anchored nodes.
-/

namespace Runbook

inductive Yaml where
  | scalar (tag : Option String) (style : Yaml.Style) (text : String)
  | sequence (tag : Option String) (items : List Yaml)
  | mapping (tag : Option String) (pairs : List (Yaml × Yaml))
  | alias (anchor : Nat)
  deriving Inhabited

namespace Yaml

/-- The scalar that stands where nothing was written. -/
def blank : Yaml := scalar none .plain ""

/-- Whether a node is a scalar of which nothing was written. -/
def isBlankScalar : Yaml → Bool
  | scalar _ .plain "" => true
  | _ => false

structure Document where
  /-- The node of the document, if the text has a document. -/
  root : Option Yaml
  /-- Anchors by number, each with the number of its node. -/
  anchors : List (Nat × Nat)
  /-- The anchored nodes by number. -/
  nodes : List (Nat × Yaml)
  /-- How many scalars, aliases, beginnings and ends of collections there are. -/
  events : Nat

/-- The node that an alias refers to. -/
def Document.target? (d : Document) (anchor : Nat) : Option Yaml :=
  (d.anchors.lookup anchor).bind fun number => d.nodes.lookup number

end Yaml

end Runbook
