import Runbook.Dict

/-!
# Runbook graphs

A `Graph` is a document that has been checked: every node has an id and is of a known kind. Nodes
that run one after the other form a list, and the nodes inside a node are part of it.

A graph is built and kept as a `Layout`, which lists the nodes in the order in which they are
written, with links by position in place of nesting: to the node that runs next, to the first node
of each branch and to the first node of a body.

* `Arena.chain` follows the links from a node to the ones that run after it,
* `Layout.find?` is the position of the node with an id,
* `Layout.graph` is the tree that the links of a layout describe,
* `Graph.arena` lists the nodes of a tree with the links that a layout of it has.
-/

namespace Runbook

/-- A node, with the nodes inside it. -/
inductive Node where
  /-- Calls the action `urn`. -/
  | action (id urn : String) (params exports : Dict String String)
  /-- Runs one of two lists of nodes. -/
  | choice (id condition : String) (yes no : List Node)
  /-- Runs `body` for every element. -/
  | loop (id elements : String) (itemAs : Option String) (body : List Node)
  deriving Inhabited

/-- The nodes that run one after the other at the top of a runbook. -/
structure Graph where
  nodes : List Node
  deriving Inhabited

namespace Node

def id : Node → String
  | action id .. => id
  | choice id .. => id
  | loop id .. => id

mutual

/-- How many nodes a node is, with those inside it. -/
def size : Node → Nat
  | action .. => 1
  | choice _ _ yes no => 1 + sizeAll yes + sizeAll no
  | loop _ _ _ body => 1 + sizeAll body

def sizeAll : List Node → Nat
  | [] => 0
  | n :: rest => n.size + sizeAll rest

end

end Node

/-! ### Nodes by position -/

/-- What a node of an arena does, with links by position. -/
inductive Entry.Kind where
  | action (urn : String) (params exports : Dict String String)
  | choice (condition : String) (yes no : Option Nat)
  | loop (elements : String) (itemAs : Option String) (body : Option Nat)
  deriving DecidableEq

/-- A node of an arena. -/
structure Entry where
  id : String
  kind : Entry.Kind
  /-- The node that runs next. -/
  next : Option Nat
  deriving DecidableEq

/-- The node of an entry, `inside` being what the links into it lead to. -/
def Entry.node (e : Entry) (inside : Option Nat → List Node) : Node :=
  match e.kind with
  | .action urn params exports => .action e.id urn params exports
  | .choice condition yes no => .choice e.id condition (inside yes) (inside no)
  | .loop elements itemAs body => .loop e.id elements itemAs (inside body)

/-- Nodes by position. -/
abbrev Arena := List Entry

namespace Arena

/-- The positions from `start` along the links to the next node, at most `fuel` of them. -/
def follow (a : Arena) : Nat → Option Nat → List Nat
  | 0, _ => []
  | _ + 1, none => []
  | fuel + 1, some i =>
    match a[i]? with
    | some e => i :: follow a fuel e.next
    | none => []

/-- The positions of the nodes that run one after the other from `start` on. -/
def chain (a : Arena) (start : Option Nat) : List Nat := a.follow a.length start

/-- The position of the first node with an id. -/
def find? (a : Arena) (id : String) : Option Nat := a.findIdx? (fun e => e.id == id)

/-- What a link leads to, `chains` being what can be reached from `start` on, by position. -/
def reach (start : Nat) (chains : List (List Node)) : Option Nat → List Node
  | some i => if start ≤ i then chains.getD (i - start) [] else []
  | none => []

/-- The nodes that run one after the other from each entry on, the first entry being at `start`.
Links lead to later entries, so the last entry comes first. -/
def chains (start : Nat) : List Entry → List (List Node)
  | [] => []
  | e :: rest =>
    let later := chains (start + 1) rest
    (e.node (reach (start + 1) later) :: reach (start + 1) later e.next) :: later

end Arena

/-- A graph as it is built. -/
structure Layout where
  nodes : Arena
  /-- The node that runs first. -/
  root : Option Nat
  /-- The positions of the nodes by id. -/
  byId : Dict String Nat
  deriving DecidableEq

namespace Layout

/-- The position of the node with an id. -/
def find? (l : Layout) (id : String) : Option Nat := l.byId.get? id

/-- The tree of nodes that the links describe. -/
def graph (l : Layout) : Graph := ⟨Arena.reach 0 (Arena.chains 0 l.nodes) l.root⟩

end Layout

/-! ### The arena of a tree -/

namespace Node

/-- The link to the first of some nodes placed at `start`. -/
def link (start : Nat) (nodes : List Node) : Option Nat :=
  if nodes.isEmpty then none else some start

mutual

/-- The entries of a node placed at `start`: itself, then the nodes inside it. -/
def entries (start : Nat) (next : Option Nat) : Node → List Entry
  | action id urn params exports => [⟨id, .action urn params exports, next⟩]
  | choice id condition yes no =>
    let afterYes := start + 1 + sizeAll yes
    ⟨id, .choice condition (link (start + 1) yes) (link afterYes no), next⟩ ::
      (entriesAll (start + 1) yes ++ entriesAll afterYes no)
  | loop id elements itemAs body =>
    ⟨id, .loop elements itemAs (link (start + 1) body), next⟩ :: entriesAll (start + 1) body

/-- The entries of nodes that run one after the other, the first placed at `start`. -/
def entriesAll (start : Nat) : List Node → List Entry
  | [] => []
  | n :: rest =>
    n.entries start (link (start + n.size) rest) ++ entriesAll (start + n.size) rest

end

end Node

namespace Graph

/-- The nodes of a graph by position. -/
def arena (g : Graph) : Arena := Node.entriesAll 0 g.nodes

/-- The position of the node that runs first. -/
def root? (g : Graph) : Option Nat := Node.link 0 g.nodes

def size (g : Graph) : Nat := Node.sizeAll g.nodes

end Graph

end Runbook
