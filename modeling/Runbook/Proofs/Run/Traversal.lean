import Runbook.Proofs.Graph.Build
import Runbook.Proofs.Run.Linked
import Runbook.Proofs.Run.Records
import Runbook.Proofs.Run.Stages
import Runbook.Proofs.Run.Tree

namespace Runbook

/-!
# Running a graph — traversals end and start nodes once

The links of an arena only lead forward, so a run along them ends wherever it begins.  A run comes
to a node at most once in every scope, so what it puts on record is never overwritten.

* `stands_rest` — from every position on, the arena holds a list of nodes;
* `Run.climb` — a run along links that lead to ever higher positions, and along no others;
* `climb_link` — climbing from the link to some nodes is running the nodes;
* `Story.eq_cons` — a story begins with the start of its node and has no other start;
* `traversed_of_build` — both laws, for every graph that was built.
-/

/-! ### Nodes from a position on -/

namespace Node

variable {a : Arena}

mutual

/-- From every position inside a node on, there stand the entries of a node and of the nodes that
    run after it. -/
theorem stands_rest_inner {start : Nat} :
    ∀ {n : Node}, Stands a (start + 1) (n.innerEntries start) →
      ∀ {k : Nat} {m : Node}, n.subtree[k + 1]? = some m →
        ∃ rest, Stands a (start + 1 + k) (entriesAll (start + 1 + k) (m :: rest))
  | action .., _, k, m, hm => by simp [subtree] at hm
  | choice _ _ yes no, h, k, m, hm => by
    rw [innerEntries, stands_append, length_entriesAll] at h
    obtain ⟨hyes, hno⟩ := h
    rw [subtree, List.getElem?_cons_succ, List.getElem?_append, length_listing] at hm
    split at hm
    · exact stands_rest hyes hm
    · obtain ⟨rest, h'⟩ := stands_rest hno hm
      rw [show start + 1 + sizeAll yes + (k - sizeAll yes) = start + 1 + k by omega] at h'
      exact ⟨rest, h'⟩
  | loop _ _ _ body, h, k, m, hm => by
    rw [innerEntries] at h
    rw [subtree, List.getElem?_cons_succ] at hm
    exact stands_rest h hm

/-- From every position of a list of nodes on, there stand the entries of a node and of the nodes
    that run after it. -/
theorem stands_rest {start : Nat} :
    ∀ {nodes : List Node}, Stands a start (entriesAll start nodes) →
      ∀ {k : Nat} {m : Node}, (listing nodes)[k]? = some m →
        ∃ rest, Stands a (start + k) (entriesAll (start + k) (m :: rest))
  | [], _, k, m, hm => by simp [listing] at hm
  | n :: rest, h, k, m, hm => by
    have hall := h
    rw [entriesAll, stands_append, length_entries] at h
    obtain ⟨hn, hrest⟩ := h
    rw [listing, List.getElem?_append, length_subtree] at hm
    split at hm
    · cases k with
      | zero =>
        have hnm : n = m := by
          cases n <;> simpa [subtree] using hm
        exact ⟨rest, hnm ▸ hall⟩
      | succ k =>
        rw [entries_eq_cons, stands_cons] at hn
        obtain ⟨after, h'⟩ := stands_rest_inner hn.2 hm
        rw [show start + 1 + k = start + (k + 1) by omega] at h'
        exact ⟨after, h'⟩
    · obtain ⟨after, h'⟩ := stands_rest hrest hm
      rw [show start + n.size + (k - n.size) = start + k by omega] at h'
      exact ⟨after, h'⟩

end

end Node

/-! ### Climbing -/

namespace Run

/-- Runs the entries that a link leads to, as `follow` does, but without a limit to the number of
    links: from an entry on only links to higher positions inside the arena are followed. `lost` is
    run in place of every other link. -/
def climb (x : Execution) (a : Arena) (lost : Run Unit) (floor : Nat) (frame : Frame) :
    Option Nat → Run Unit
  | none => pure ()
  | some i =>
    if h : floor ≤ i ∧ i < a.length then do
      if ← isCancelled frame then throw .cancelled
      runEntry x frame (fun inner link => climb x a lost (i + 1) inner link) a[i]
      climb x a lost (i + 1) frame a[i].next
    else lost
termination_by a.length - floor
decreasing_by all_goals omega

variable {x : Execution} {a : Arena}

theorem climb_none (lost : Run Unit) (floor : Nat) (frame : Frame) :
    climb x a lost floor frame none = pure () := by
  rw [climb]

open Node (sizeAll link entriesAll)

/-- **Climbing.** Following the link to some nodes is running the nodes, and every link that is
    followed leads to a higher position than the entry that it belongs to. -/
theorem climb_link (lost : Run Unit) (fuel : Nat) : ∀ (floor : Nat) (frame : Frame) (start : Nat)
    (nodes : List Node), floor ≤ start → Stands a start (entriesAll start nodes) →
      sizeAll nodes ≤ fuel → climb x a lost floor frame (link start nodes) = runNodes x frame nodes
    := by
  induction fuel with
  | zero =>
    intro floor frame start nodes _ _ hfuel
    cases nodes with
    | nil =>
      rw [runNodes]
      exact climb_none lost floor frame
    | cons n rest =>
      have hpos := n.size_pos
      simp only [sizeAll] at hfuel
      omega
  | succ fuel ih =>
    intro floor frame start nodes hfloor hstands hfuel
    cases nodes with
    | nil =>
      rw [runNodes]
      exact climb_none lost floor frame
    | cons n rest =>
      have hpos := n.size_pos
      rw [entriesAll, stands_append, Node.length_entries] at hstands
      obtain ⟨hn, hrest⟩ := hstands
      simp only [sizeAll] at hfuel
      have hentry := hn
      rw [Node.entries_eq_cons, stands_cons] at hentry
      obtain ⟨hlt, hget⟩ := List.getElem?_eq_some_iff.1 hentry.1
      -- What is inside the first node and what comes after it stands above the node itself.
      have hrun : runEntry x frame (fun inner link => climb x a lost (start + 1) inner link) _ =
          runNode x frame n :=
        runEntry_eq hn fun inner start' nodes hstart hnodes hsize =>
          ih (start + 1) inner start' nodes hstart hnodes (by omega)
      have hnext := ih (start + 1) frame (start + n.size) rest (by omega) hrest (by omega)
      show climb x a lost floor frame (some start) = _
      rw [climb, dif_pos ⟨hfloor, hlt⟩, hget, runNodes, ← hrun, ← hnext]

end Run

/-! ### Starts -/

/-- Whether an occurrence makes the record of a node anew in a scope. -/
def Occurrence.startsNode (s : ScopeId) (id : String) (o : Occurrence) : Bool :=
  o.startsIn s && o.about? == some (s, id)

theorem Occurrence.startsIn_of_startsNode {s : ScopeId} {id : String} {o : Occurrence}
    (h : o.startsNode s id) : o.startsIn s := by
  rw [startsNode, Bool.and_eq_true] at h
  exact h.1

/-- What makes the record of a node anew is about the node. -/
theorem Occurrence.about?_of_startsNode {s : ScopeId} {id : String} {o : Occurrence}
    (h : o.startsNode s id) : o.about? = some (s, id) := by
  rw [startsNode, Bool.and_eq_true, beq_iff_eq] at h
  exact h.2

theorem startsIn_iterationsOf {s : ScopeId} {id : String} (its : List Iteration) (index : Nat) :
    ∀ o ∈ iterationsOf s id index its, o.startsIn s = false := by
  intro o ho
  obtain ⟨k, i, -, rfl⟩ := eq_of_mem_iterationsOf ho
  exact Bool.and_false _

/-- **One start.** A story begins with the start of its node, and has no other start. -/
theorem Story.eq_cons {s : ScopeId} {n : Node} {story : List Occurrence} (h : Story s n story) :
    ∃ rest, story = .changed s n.start :: rest ∧ ∀ o ∈ rest, o.startsIn s = false := by
  -- After the start of a loop there are its iterations and its end.
  have hloop : ∀ {id : String} (its : List Iteration) {d : Change}, d.starts = false →
      ∀ o ∈ iterationsOf s id 1 its ++ [.changed s d], o.startsIn s = false := by
    intro id its d hd o ho
    rcases List.mem_append.1 ho with ho | ho
    · exact startsIn_iterationsOf its 1 o ho
    · rw [List.mem_singleton.1 ho, Occurrence.startsIn, hd, Bool.and_false]
  cases h with
  | broken its f => exact ⟨_, by rw [List.append_assoc]; rfl, hloop its rfl⟩
  | finished its => exact ⟨_, by rw [List.append_assoc]; rfl, hloop its rfl⟩
  | _ =>
    refine ⟨_, rfl, ?_⟩
    simp [Occurrence.startsIn, Change.starts]

namespace Tells

variable {p : ScopeId → Prop} {nodes : List Node} {course earlier later : List Occurrence}

/-- Where nodes tell their stories, there is one start of a node in a scope at most, and nothing is
    about the node before. -/
theorem aboutNode_eq_cons (h : Tells p nodes course) {s : ScopeId} {id : String}
    (hne : aboutNode s id course ≠ []) :
    ∃ o rest, aboutNode s id course = o :: rest ∧ ∀ o ∈ rest, o.startsIn s = false := by
  obtain ⟨-, n, -, -, hstory⟩ := h s id hne
  obtain ⟨rest, heq, hrest⟩ := hstory.eq_cons
  exact ⟨_, rest, heq, hrest⟩

/-- A node is started in a scope once at most. -/
theorem countP_startsNode (h : Tells p nodes course) (s : ScopeId) (id : String) :
    course.countP (Occurrence.startsNode s id) ≤ 1 := by
  have hcount : course.countP (Occurrence.startsNode s id) =
      (aboutNode s id course).countP (Occurrence.startsNode s id) := by
    rw [aboutNode, List.countP_filter]
    refine List.countP_congr fun o _ => ?_
    rw [Bool.and_eq_true, decide_eq_true_eq]
    exact ⟨fun ho => ⟨ho, Occurrence.about?_of_startsNode ho⟩, fun ho => ho.1⟩
  rw [hcount]
  by_cases hne : aboutNode s id course = []
  · rw [hne]
    exact Nat.zero_le 1
  · obtain ⟨o, rest, heq, hrest⟩ := h.aboutNode_eq_cons hne
    have hzero : rest.countP (Occurrence.startsNode s id) = 0 := by
      refine List.countP_eq_zero.2 fun o ho hstart => ?_
      have hfalse := hrest o ho
      rw [Occurrence.startsIn_of_startsNode hstart] at hfalse
      cases hfalse
    rw [heq, List.countP_cons, hzero]
    split <;> omega

/-- Nothing is about a node of a scope before it is started there. -/
theorem aboutNode_before (h : Tells p nodes course) {s : ScopeId} {id : String} {o : Occurrence}
    (hsplit : course = earlier ++ o :: later) (ho : o.startsNode s id) :
    aboutNode s id earlier = [] := by
  have hparts : aboutNode s id course =
      aboutNode s id earlier ++ o :: aboutNode s id later := by
    have hcons : aboutNode s id (o :: later) = o :: aboutNode s id later :=
      List.filter_cons_of_pos (by simpa using Occurrence.about?_of_startsNode ho)
    rw [hsplit, aboutNode_append, hcons]
  have hne : aboutNode s id course ≠ [] := by
    rw [hparts]
    simp
  obtain ⟨o', rest, heq, hrest⟩ := h.aboutNode_eq_cons hne
  cases hbefore : aboutNode s id earlier with
  | nil => rfl
  | cons first between =>
    -- The start would not be the first of the story.
    rw [hparts, hbefore, List.cons_append, List.cons.injEq] at heq
    have hmem : o ∈ rest := heq.2 ▸ List.mem_append_right between List.mem_cons_self
    have hfalse := hrest o hmem
    rw [Occurrence.startsIn_of_startsNode ho] at hfalse
    cases hfalse

end Tells

/-! ### The laws -/

/-- Traversals of the graph of a layout end and start nodes once in every scope. -/
structure Traversed (x : Execution) (l : Layout) : Prop where
  /-- The graph is the one that the links of the layout describe. -/
  graph : x.graph = l.graph
  /-- A link leads to a later entry of the arena. -/
  forward : ∀ i j, l.nodes.Linked i j → i < j ∧ j < l.nodes.length
  /-- From every entry on, a run along the links follows no link but to higher positions inside the
      arena and runs a list of nodes, whatever it is given by the backend, the scopes and other
      parties. -/
  climbs : ∀ i < l.nodes.length, ∃ n rest, (Node.listing x.graph.nodes)[i]? = some n ∧
    ∀ lost floor frame, floor ≤ i →
      Run.climb x l.nodes lost floor frame (some i) = Run.runNodes x frame (n :: rest)
  /-- A whole run is one from the root on. -/
  whole : ∀ lost frame,
    Run.climb x l.nodes lost 0 frame l.root = Run.runNodes x frame x.graph.nodes
  /-- In the first run, a node is started in a scope once at most. -/
  once : ∀ seed events s id,
    (x.start (.scheduled seed events)).2.course.countP (Occurrence.startsNode s id) ≤ 1
  /-- What a scope has become is told by the course. -/
  told : ∀ seed events s, (x.start (.scheduled seed events)).2.store.scope s =
    Scope.told seed (x.start (.scheduled seed events)).2.course s
  /-- When a node is started in a scope, the scope has no record of the node, so none is
      overwritten. -/
  vacant : ∀ seed events s id earlier o later,
    (x.start (.scheduled seed events)).2.course = earlier ++ o :: later → o.startsNode s id →
      (Scope.told seed earlier s).recordsOf id = (none, none, none)

open Node (sizeAll entriesAll) in
/-- **Traversals.** Along the links of the layout of a document runs end, and no record is ever
    overwritten in the first run. -/
theorem traversed_of_build (x : Execution) {document : List Step} {ids rest : IdSource}
    (h : Graph.build document ids = (.ok x.graph, rest)) :
    ∃ l, Graph.layout document ids = (.ok l, rest) ∧ Traversed x l := by
  have hd := (Graph.build_ok h).2
  obtain ⟨l, hlayout, hl⟩ := Graph.layout_of_build h
  have hlength : l.nodes.length = sizeAll x.graph.nodes := by
    rw [hl.nodes]
    exact Node.length_entriesAll 0 _
  have hall : Stands l.nodes 0 (entriesAll 0 x.graph.nodes) := hl.nodes ▸ List.prefix_rfl
  refine ⟨l, hlayout, ?_⟩
  constructor
  case graph => exact hl.graph_eq.symm
  case forward =>
    rintro i j ⟨e, he, hj⟩
    rw [hl.nodes] at he
    have hij := Node.links_entriesAll he j hj
    omega
  case climbs =>
    intro i hi
    rw [hlength, ← Node.length_listing] at hi
    have hn := List.getElem?_eq_getElem hi
    obtain ⟨after, hstands⟩ := Node.stands_rest hall hn
    rw [Nat.zero_add] at hstands
    exact ⟨_, after, hn, fun lost floor frame hfloor =>
      Run.climb_link lost _ floor frame i _ hfloor hstands (Nat.le_refl _)⟩
  case whole =>
    intro lost frame
    rw [hl.root]
    exact Run.climb_link lost _ 0 frame 0 x.graph.nodes (Nat.le_refl 0) hall (Nat.le_refl _)
  case once =>
    exact fun seed events s id => (tells_start x seed events hd).countP_startsNode s id
  case told =>
    intro seed events s
    obtain ⟨happened, -, -, hsound⟩ := start_scheduled x seed events
    exact hsound.told s
  case vacant =>
    intro seed events s id earlier o later hsplit ho
    rw [recordsOf_told, (tells_start x seed events hd).aboutNode_before hsplit ho]
    rfl

/-- The graph of `nestedLayout`. -/
theorem traversed_nestedRun :
    Graph.build Graph.nestedSteps .fresh = (.ok nestedRun.graph, ⟨5⟩) ∧
      Traversed nestedRun Graph.nestedLayout := by
  obtain ⟨l, hlayout, h⟩ := traversed_of_build nestedRun Graph.build_nestedSteps
  rw [Graph.layout_nestedSteps] at hlayout
  cases hlayout
  exact ⟨Graph.build_nestedSteps, h⟩

end Runbook
