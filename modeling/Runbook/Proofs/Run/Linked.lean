import Runbook.Proofs.Graph.Arena
import Runbook.Run

namespace Runbook

/-!
# Running a graph — along the links of its arena

A graph can be run without its tree, by following the links of its arena from one entry to the
next.  This file shows that it is the same run, and that no link is followed to where there is no
entry.

* `Run.runEntry`, `Run.follow` — running an entry, and the entries that a link leads to;
* `follow_link` — following the link to some nodes is running the nodes;
* `follow_root` — following the links of a graph from its root is running the graph.
-/

namespace Run

/-- Runs an entry of an arena.  `onward` runs what its links lead to. -/
def runEntry (x : Execution) (frame : Frame) (onward : Frame → Option Nat → Run Unit) (e : Entry) :
    Run Unit :=
  match e.kind with
  | .action urn params exports => runAction x frame e.id urn params exports
  | .choice condition yes no => do
    if ← decideOutcome x frame e.id condition then onward frame yes else onward frame no
  | .loop elements itemAs body =>
    runLoop x frame e.id elements itemAs fun inner => onward inner body

/-- Runs the entries that a link leads to one after the other, over at most `fuel` links.  `lost` is
    run where a link leads out of the arena. -/
def follow (x : Execution) (a : Arena) (lost : Run Unit) : Nat → Frame → Option Nat → Run Unit
  | _, _, none => pure ()
  | 0, _, some _ => lost
  | fuel + 1, frame, some i =>
    match a[i]? with
    | none => lost
    | some e => do
      if ← isCancelled frame then throw .cancelled
      runEntry x frame (follow x a lost fuel) e
      follow x a lost fuel frame e.next

variable {x : Execution} {a : Arena} {frame : Frame} {start : Nat}

open Node (sizeAll link entriesAll kindAt)

/-- Running the entry of a node is running the node, if its links, which lead to higher positions,
    lead to the nodes inside it. -/
theorem runEntry_eq {onward : Frame → Option Nat → Run Unit} {n : Node} {next : Option Nat}
    (hentries : Stands a start (n.entries start next))
    (honward : ∀ (inner : Frame) (start' : Nat) (nodes : List Node),
      start < start' → Stands a start' (entriesAll start' nodes) → sizeAll nodes < n.size →
        onward inner (link start' nodes) = runNodes x inner nodes) :
    runEntry x frame onward ⟨n.id, n.kindAt start, next⟩ = runNode x frame n := by
  rw [Node.entries_eq_cons, stands_cons] at hentries
  obtain ⟨-, hinner⟩ := hentries
  cases n with
  | action => rw [runNode]; rfl
  | choice id condition yes no =>
    rw [Node.innerEntries, stands_append, Node.length_entriesAll] at hinner
    have hyes := honward frame (start + 1) yes (by omega) hinner.1 (by simp only [Node.size]; omega)
    have hno := honward frame (start + 1 + sizeAll yes) no (by omega) hinner.2
      (by simp only [Node.size]; omega)
    rw [runNode, ← hyes, ← hno]
    rfl
  | loop id elements itemAs body =>
    have hbody := fun inner =>
      honward inner (start + 1) body (by omega) hinner (by simp only [Node.size]; omega)
    rw [runNode, ← funext hbody]
    rfl

/-- **Links.** Following the link to some nodes is running the nodes, whatever would be run where a
    link leads out of the arena. -/
theorem follow_link (lost : Run Unit) (fuel : Nat) : ∀ (frame : Frame) (start : Nat)
    (nodes : List Node), Stands a start (entriesAll start nodes) → sizeAll nodes ≤ fuel →
      follow x a lost fuel frame (link start nodes) = runNodes x frame nodes := by
  induction fuel with
  | zero =>
    intro frame start nodes _ hfuel
    cases nodes with
    | nil => rw [runNodes]; rfl
    | cons n rest =>
      have hpos := n.size_pos
      simp only [sizeAll] at hfuel
      omega
  | succ fuel ih =>
    intro frame start nodes hstands hfuel
    cases nodes with
    | nil => rw [runNodes]; rfl
    | cons n rest =>
      have hpos := n.size_pos
      rw [entriesAll, stands_append, Node.length_entries] at hstands
      obtain ⟨hn, hrest⟩ := hstands
      simp only [sizeAll] at hfuel
      have hentry := hn
      rw [Node.entries_eq_cons, stands_cons] at hentry
      -- What is inside the first node and what comes after it is less than all of them.
      have hrun : runEntry x frame (follow x a lost fuel) _ = runNode x frame n :=
        runEntry_eq hn fun inner start' nodes _ hnodes hsize =>
          ih inner start' nodes hnodes (by omega)
      have hnext := ih frame (start + n.size) rest hrest (by omega)
      show follow x a lost (fuel + 1) frame (some start) = _
      rw [follow, hentry.1, runNodes, ← hrun, ← hnext]

end Run

/-- **A run along the links.** Following the links of a graph from its root is running its nodes,
    and no link is followed to where there is no entry. -/
theorem follow_root (x : Execution) (lost : Run Unit) (frame : Frame) :
    Run.follow x x.graph.arena lost x.graph.arena.length frame x.graph.root? =
      Run.runNodes x frame x.graph.nodes := by
  have hlength : x.graph.arena.length = Node.sizeAll x.graph.nodes := Node.length_entriesAll 0 _
  exact Run.follow_link lost _ frame 0 x.graph.nodes List.prefix_rfl (Nat.le_of_eq hlength.symm)

end Runbook
