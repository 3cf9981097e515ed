import Runbook.Proofs.Graph.Arena
import Runbook.Proofs.Run.Errors
import Runbook.Proofs.Run.Start

namespace Runbook

/-!
# Running a graph — what happens about a node

In the course of a run, what is about one node of one scope is never mixed up with what is about
another: it is a story with a beginning and an end, and it is told once.

* `aboutNode` — the part of a course that is about a node of a scope;
* `Story` — the stories that a run can tell of a node;
* `Tells`, `Loops` — a stretch tells of nodes; a stretch of iterations tells of the nodes in the
  body of a loop and of a part of the loop's own story;
* `Exec.tells` — executions tell stories, by induction;
* `Started.tells` — all that a run tells of a node of a scope is one story of a node of the graph.
-/

/-- The part of a course that is about a node of a scope. -/
def aboutNode (s : ScopeId) (id : String) (happened : List Occurrence) : List Occurrence :=
  happened.filter fun o => o.about? = some (s, id)

/-- The iterations of a loop, the first of them with number `index`. -/
def iterationsOf (s : ScopeId) (id : String) (index : Nat) : List Iteration → List Occurrence
  | [] => []
  | i :: rest =>
    .changed s (.startIteration id index i.value i.scope) :: iterationsOf s id (index + 1) rest

/-- What may happen about a node of the scope `s`. -/
inductive Story (s : ScopeId) : Node → List Occurrence → Prop
  /-- An action does not get its parameters. -/
  | starved {id urn : String} {params exports : Dict String String} (e : WaitError) :
      Story s (.action id urn params exports)
        [.changed s (.startAction id), .changed s (.failAction id (Failure.ofWait id e).recordText)]
  /-- An action is called, and the call fails. -/
  | failed {id urn : String} {params exports : Dict String String} (values : List Value)
      (e : ActionError) :
      Story s (.action id urn params exports)
        [.changed s (.startAction id),
          .changed s (.recordParams id (inputsOf params values) true),
          .called s id ⟨urn, inputsOf params values⟩ (.error e),
          .changed s (.failAction id (Failure.actionFailed id e).recordText)]
  /-- An action is called, and the call succeeds. -/
  | done {id urn : String} {params exports : Dict String String} (values : List Value)
      (result : ActionResult) :
      Story s (.action id urn params exports)
        [.changed s (.startAction id),
          .changed s (.recordParams id (inputsOf params values) true),
          .called s id ⟨urn, inputsOf params values⟩ (.ok result),
          .changed s (.completeAction id result (Run.exportsOf exports result))]
  | undecided {id condition : String} {yes no : List Node} (f : Failure) :
      Story s (.choice id condition yes no)
        [.changed s (.startChoice id), .changed s (.failChoice id f.recordText)]
  | decided {id condition : String} {yes no : List Node} (b : Bool) (used : Dict String String) :
      Story s (.choice id condition yes no)
        [.changed s (.startChoice id), .changed s (.decideChoice id b used)]
  /-- A loop fails, possibly after some iterations. -/
  | broken {id elements : String} {itemAs : Option String} {body : List Node}
      (iterations : List Iteration) (f : Failure) :
      Story s (.loop id elements itemAs body)
        ([.changed s (.startLoop id true)] ++ iterationsOf s id 1 iterations ++
          [.changed s (.failLoop id f.recordText)])
  /-- A loop comes to its end. -/
  | finished {id elements : String} {itemAs : Option String} {body : List Node}
      (iterations : List Iteration) :
      Story s (.loop id elements itemAs body)
        ([.changed s (.startLoop id true)] ++ iterationsOf s id 1 iterations ++
          [.changed s (.finishLoop id)])

/-! ### Parts of a course -/

section

variable {s : ScopeId} {id : String} {happened before after : List Occurrence}

/-- What two stretches tell of a node. -/
theorem aboutNode_append (s : ScopeId) (id : String) (before after : List Occurrence) :
    aboutNode s id (before ++ after) = aboutNode s id before ++ aboutNode s id after :=
  List.filter_append ..

/-- What a stretch tells of a node in a scope. -/
theorem mem_aboutNode {o : Occurrence} :
    o ∈ aboutNode s id happened ↔ o ∈ happened ∧ o.about? = some (s, id) := by
  rw [aboutNode, List.mem_filter, decide_eq_true_eq]

/-- A stretch that is never about the node tells nothing of it. -/
theorem aboutNode_eq_nil (h : ∀ o ∈ happened, o.about? ≠ some (s, id)) :
    aboutNode s id happened = [] :=
  List.filter_eq_nil_iff.2 fun o ho => by simpa using h o ho

/-- A stretch that is only about the node tells nothing else. -/
theorem aboutNode_eq_self (h : ∀ o ∈ happened, o.about? = some (s, id)) :
    aboutNode s id happened = happened :=
  List.filter_eq_self.2 fun o ho => by simpa using h o ho

/-- The iterations of a loop with their numbers, without recursion. -/
theorem iterationsOf_eq_map (its : List Iteration) : ∀ index, iterationsOf s id index its =
    (its.zipIdx index).map fun p =>
      .changed s (.startIteration id (p.2 : Nat) p.1.value p.1.scope) := by
  induction its with
  | nil => exact fun _ => rfl
  | cons i rest ih =>
    intro index
    rw [iterationsOf, ih, List.zipIdx_cons, List.map_cons]

/-- What `iterationsOf` lists is the start of one of the iterations. -/
theorem eq_of_mem_iterationsOf {its : List Iteration} {index : Nat} {o : Occurrence}
    (h : o ∈ iterationsOf s id index its) :
    ∃ k, ∃ i ∈ its, o = .changed s (.startIteration id k i.value i.scope) := by
  rw [iterationsOf_eq_map] at h
  obtain ⟨p, hp, rfl⟩ := List.mem_map.1 h
  exact ⟨_, p.1, List.fst_mem_of_mem_zipIdx hp, rfl⟩

/-- The iterations of a loop are about the loop. -/
theorem about?_iterationsOf (its : List Iteration) :
    ∀ index, ∀ o ∈ iterationsOf s id index its, o.about? = some (s, id) := by
  intro index o ho
  obtain ⟨k, i, -, rfl⟩ := eq_of_mem_iterationsOf ho
  rfl

/-- Later iterations are numbered on. -/
theorem iterationsOf_append (its its' : List Iteration) (index : Nat) :
    iterationsOf s id index (its ++ its') =
      iterationsOf s id index its ++ iterationsOf s id (index + its.length) its' := by
  induction its generalizing index with
  | nil => rfl
  | cons i rest ih =>
    rw [List.cons_append, iterationsOf, iterationsOf, ih, List.cons_append, List.length_cons,
      Nat.add_assoc, Nat.add_comm 1]

end

/-- A story is about its node. -/
theorem Story.about? {s : ScopeId} {n : Node} {story : List Occurrence} (h : Story s n story) :
    ∀ o ∈ story, o.about? = some (s, n.id) := by
  cases h with
  | broken | finished =>
    intro o ho
    simp only [List.mem_append, List.mem_singleton] at ho
    rcases ho with (rfl | ho) | rfl
    · rfl
    · exact about?_iterationsOf _ _ o ho
    · rfl
  | _ =>
    intro o ho
    simp only [List.mem_cons, List.not_mem_nil, or_false] at ho
    rcases ho with rfl | rfl | rfl | rfl <;> rfl

/-- The part of a course that is about some node. -/
def deeds (happened : List Occurrence) : List Occurrence :=
  happened.filter fun o => o.about?.isSome

/-- The deeds of two stretches. -/
theorem deeds_append (before after : List Occurrence) :
    deeds (before ++ after) = deeds before ++ deeds after :=
  List.filter_append ..

/-- A stretch that is about no node has no deeds. -/
theorem deeds_eq_nil {happened : List Occurrence} (h : ∀ o ∈ happened, o.about? = none) :
    deeds happened = [] :=
  List.filter_eq_nil_iff.2 fun o ho => by simp [h o ho]

/-- What is about a node is among the deeds. -/
theorem aboutNode_deeds (s : ScopeId) (id : String) (happened : List Occurrence) :
    aboutNode s id (deeds happened) = aboutNode s id happened := by
  unfold aboutNode deeds
  rw [List.filter_filter]
  refine List.filter_congr fun o _ => ?_
  by_cases h : o.about? = some (s, id) <;> simp [h]

/-- Where all that is about some node is about one node, that is all about it. -/
theorem aboutNode_of_deeds {s : ScopeId} {id : String} {happened : List Occurrence}
    (h : ∀ o ∈ deeds happened, o.about? = some (s, id)) :
    aboutNode s id happened = deeds happened := by
  rw [← aboutNode_deeds, aboutNode_eq_self h]

/-- Where all that is about some node is about one node, nothing is about another one. -/
theorem aboutNode_of_deeds_of_ne {s t : ScopeId} {id id' : String} {happened : List Occurrence}
    (h : ∀ o ∈ deeds happened, o.about? = some (s, id)) (hne : (t, id') ≠ (s, id)) :
    aboutNode t id' happened = [] := by
  rw [← aboutNode_deeds]
  refine aboutNode_eq_nil fun o ho heq => hne ?_
  rw [h o ho, Option.some.injEq] at heq
  exact heq.symm

/-! ### Stretches that tell of nodes -/

/-- All that a stretch tells of a node of a scope is one story of one of the given nodes, and the
    scope is among the given ones. -/
def Tells (scopes : ScopeId → Prop) (nodes : List Node) (happened : List Occurrence) : Prop :=
  ∀ s id, aboutNode s id happened ≠ [] →
    scopes s ∧ ∃ n ∈ nodes, n.id = id ∧ Story s n (aboutNode s id happened)

namespace Tells

variable {p q : ScopeId → Prop} {nodes nodes' : List Node} {happened before after : List Occurrence}

/-- A stretch that is about no node tells any story. -/
theorem of_about? (h : ∀ o ∈ happened, o.about? = none) : Tells p nodes happened := by
  intro s id hne
  refine absurd (aboutNode_eq_nil fun o ho => ?_) hne
  rw [h o ho]
  simp

/-- `Tells` is monotone in the scopes and in the nodes. -/
theorem mono (h : Tells p nodes happened) (hp : ∀ s, p s → q s)
    (hnodes : ∀ n ∈ nodes, n ∈ nodes') : Tells q nodes' happened := by
  intro s id hne
  obtain ⟨hs, n, hn, hid, hstory⟩ := h s id hne
  exact ⟨hp s hs, n, hnodes n hn, hid, hstory⟩

/-- Two stretches that do not tell of the same node of the same scope. -/
theorem append (h : Tells p nodes before) (h' : Tells q nodes' after)
    (hdisjoint : ∀ s, p s → q s → ∀ n ∈ nodes, ∀ n' ∈ nodes', n.id ≠ n'.id) :
    Tells (fun s => p s ∨ q s) (nodes ++ nodes') (before ++ after) := by
  intro s id hne
  rw [aboutNode_append] at hne ⊢
  by_cases hbefore : aboutNode s id before = []
  · rw [hbefore, List.nil_append] at hne ⊢
    obtain ⟨hs, n, hn, hid, hstory⟩ := h' s id hne
    exact ⟨.inr hs, n, List.mem_append_right _ hn, hid, hstory⟩
  · obtain ⟨hs, n, hn, hid, hstory⟩ := h s id hbefore
    by_cases hafter : aboutNode s id after = []
    · rw [hafter, List.append_nil]
      exact ⟨.inl hs, n, List.mem_append_left _ hn, hid, hstory⟩
    · -- Both stretches tell of the node, which they cannot.
      obtain ⟨hs', n', hn', hid', -⟩ := h' s id hafter
      exact absurd (hid.trans hid'.symm) (hdisjoint s hs hs' n hn n' hn')

/-- A stretch in which nothing but a story is about a node. -/
theorem of_deeds {s : ScopeId} {n : Node} (h : Story s n (deeds happened)) :
    Tells (· = s) [n] happened := by
  intro s' id hne
  obtain ⟨o, ho⟩ := List.exists_mem_of_ne_nil _ hne
  obtain ⟨hmem, habout⟩ := mem_aboutNode.1 ho
  have hdeed : o ∈ deeds happened := List.mem_filter.2 ⟨hmem, by simp [habout]⟩
  obtain ⟨rfl, rfl⟩ := Prod.mk.inj (Option.some.inj (habout.symm.trans (h.about? o hdeed)))
  refine ⟨rfl, n, List.mem_singleton_self n, rfl, ?_⟩
  rwa [aboutNode_of_deeds h.about?]

end Tells

/-! ### Actions and decisions -/

variable {x : Execution} {frame : Frame} {m m' : Machine} {happened : List Occurrence}

/-- While a node waits, nothing is about a node. -/
theorem Awaited.deeds_after {c : Change} {id : String} {limit : Nat} {tokens : List String}
    {answer : Except WaitError (List Value)} (hm : m.Ready frame)
    (h : Awaited frame id limit tokens (m.change frame.top c) happened answer m') :
    deeds ([.changed frame.top c] ++ happened) = deeds [.changed frame.top c] := by
  rw [deeds_append, deeds_eq_nil (Occurrence.about?_of_foreign (h.foreign_after hm)),
    List.append_nil]

/-- A call is about its node, and what others do until the answer is there is about none. -/
theorem Awaited.deeds_call {c c' : Change} {id : String} {limit : Nat} {tokens : List String}
    {values : List Value} {m₁ : Machine} {call : ActionCall}
    {answer : Except ActionError ActionResult} {heard : List Occurrence} (hm : m.Ready frame)
    (h : Awaited frame id limit tokens (m.change frame.top c) happened (.ok values) m₁)
    (hcall : Called x frame id call (m₁.change frame.top c') answer heard m') :
    deeds ([.called frame.top id call answer] ++ heard) = [.called frame.top id call answer] := by
  rw [deeds_append, deeds_eq_nil (Occurrence.about?_of_foreign (h.heard_foreign hm hcall))]
  rfl

/-- An action tells its own story, in the scope it runs in. -/
theorem Acts.tells {id urn : String} {params exports : Dict String String} {outcome : Outcome}
    (h : Acts x frame id urn params exports m happened outcome m') (hm : m.Ready frame) :
    Tells (· = frame.top) [.action id urn params exports] happened := by
  refine .of_deeds ?_
  cases h with
  | starved hw =>
    rw [deeds_append, hw.deeds_after hm]
    exact .starved _
  | failed hw hcall =>
    rw [deeds_append, deeds_append, deeds_append, hw.deeds_after hm, hw.deeds_call hm hcall]
    exact .failed _ _
  | done hw hcall =>
    rw [deeds_append, deeds_append, deeds_append, deeds_append, hw.deeds_after hm,
      hw.deeds_call hm hcall, deeds_eq_nil (Occurrence.about?_publication _ _)]
    exact .done _ _

/-- Deciding tells the story of the choice, whatever its branches are. -/
theorem Decides.tells {id condition : String} {answer : Except Failure Bool} (yes no : List Node)
    (h : Decides x frame id condition m happened answer m') (hm : m.Ready frame) :
    Tells (· = frame.top) [.choice id condition yes no] happened := by
  refine .of_deeds ?_
  cases h with
  | malformed => exact .undecided _
  | starved _ hw | undecidable _ hw =>
    rw [deeds_append, hw.deeds_after hm]
    exact .undecided _
  | decided _ hw =>
    rw [deeds_append, hw.deeds_after hm]
    exact .decided _ _

/-! ### Stretches of a scope -/

/-- What tells of nodes of one scope only, as a part of what tells of scopes opened in it as
    well. -/
theorem Tells.here {top : ScopeId} {nodes nodes' : List Node} (h : Tells (· = top) nodes happened)
    (hnodes : ∀ n ∈ nodes, n ∈ nodes') (m m' : Machine) :
    Tells (fun s => s = top ∨ Opened m m' s) nodes' happened :=
  h.mono (fun _ hs => .inl hs) hnodes

/-- Two stretches of one scope that follow each other and tell of different nodes. -/
theorem Tells.andThen {top : ScopeId} {m₁ : Machine} {nodes nodes' : List Node}
    {before after : List Occurrence}
    (h : Tells (fun s => s = top ∨ Opened m m₁ s) nodes before)
    (h' : Tells (fun s => s = top ∨ Opened m₁ m' s) nodes' after)
    (hle : m.store.size ≤ m₁.store.size) (hle' : m₁.store.size ≤ m'.store.size)
    (hdisjoint : ∀ n ∈ nodes, ∀ n' ∈ nodes', n.id ≠ n'.id) :
    Tells (fun s => s = top ∨ Opened m m' s) (nodes ++ nodes') (before ++ after) := by
  refine (h.append h' fun _ _ _ => hdisjoint).mono (fun s hs => ?_) fun _ hn => hn
  rcases hs with (hs | hs) | (hs | hs)
  · exact .inl hs
  · exact .inr (hs.weaken (Nat.le_refl _) hle')
  · exact .inl hs
  · exact .inr (hs.weaken hle (Nat.le_refl _))

/-! ### Iterations -/

/-- The part of a course that is not about one node of one scope. -/
def withoutNode (s : ScopeId) (id : String) (happened : List Occurrence) : List Occurrence :=
  happened.filter fun o => o.about? ≠ some (s, id)

/-- The rest of two stretches. -/
theorem withoutNode_append (s : ScopeId) (id : String) (before after : List Occurrence) :
    withoutNode s id (before ++ after) = withoutNode s id before ++ withoutNode s id after :=
  List.filter_append ..

/-- Nothing is left of the node that is left out. -/
theorem aboutNode_withoutNode_self (s : ScopeId) (id : String) (happened : List Occurrence) :
    aboutNode s id (withoutNode s id happened) = [] :=
  aboutNode_eq_nil fun _ ho => by simpa using (List.mem_filter.1 ho).2

/-- Other nodes, and the node in other scopes, keep all that is told of them. -/
theorem aboutNode_withoutNode {s t : ScopeId} {id id' : String} (h : (t, id') ≠ (s, id))
    (happened : List Occurrence) :
    aboutNode t id' (withoutNode s id happened) = aboutNode t id' happened := by
  unfold aboutNode withoutNode
  rw [List.filter_filter]
  refine List.filter_congr fun o _ => ?_
  by_cases ho : o.about? = some (t, id')
  · simp [ho, h]
  · simp [ho]

/-- How the story of a loop ends if iterations end with `outcome`. -/
def endingOf (s : ScopeId) (id : String) : Outcome → List Occurrence
  | .ok () => []
  | .error f => [.changed s (.failLoop id f.recordText)]

/-- The end of a loop is about the loop. -/
theorem about?_endingOf {s : ScopeId} {id : String} {outcome : Outcome} :
    ∀ o ∈ endingOf s id outcome, o.about? = some (s, id) := by
  intro o ho
  cases outcome with
  | ok => exact absurd ho List.not_mem_nil
  | error f =>
    rw [List.mem_singleton.1 ho]
    rfl

/-- A stretch of iterations tells of a part of the loop's own story and of the nodes in its body, in
    scopes that are opened in it. -/
structure Loops (top : ScopeId) (id : String) (body : List Node) (index rounds : Nat) (m : Machine)
    (happened : List Occurrence) (outcome : Outcome) (m' : Machine) : Prop where
  own : ∃ its, (outcome = .ok () → its.length = rounds) ∧
    aboutNode top id happened = iterationsOf top id index its ++ endingOf top id outcome
  inner : Tells (Opened m m') (Node.listing body) (withoutNode top id happened)

/-- What an execution of a task tells. -/
def Task.Told (top : ScopeId) (m : Machine) (happened : List Occurrence) (outcome : Outcome)
    (m' : Machine) : Task → Prop
  | .nodes list => Tells (fun s => s = top ∨ Opened m m' s) (Node.listing list) happened
  | .node n => Tells (fun s => s = top ∨ Opened m m' s) n.subtree happened
  | .rounds id _ body index values =>
    Loops top id body index values.length m happened outcome m'
  | .round id _ body index _ => Loops top id body index 1 m happened outcome m'

/-- No two nodes of a task share an id. -/
def Task.Distinct : Task → Prop
  | .nodes list => ((Node.listing list).map Node.id).Nodup
  | .node n => (n.subtree.map Node.id).Nodup
  | .rounds id _ body _ _ | .round id _ body _ _ => (id :: (Node.listing body).map Node.id).Nodup

namespace Task

/-- The nodes of a list are distinct from those of the first node. -/
theorem distinct_cons {n : Node} {rest : List Node} (h : (Task.nodes (n :: rest)).Distinct) :
    (Task.node n).Distinct ∧ (Task.nodes rest).Distinct ∧
      ∀ a ∈ n.subtree, ∀ b ∈ Node.listing rest, a.id ≠ b.id := by
  have h : ((n.subtree ++ Node.listing rest).map Node.id).Nodup := h
  rw [List.map_append] at h
  obtain ⟨hn, hrest, hdisjoint⟩ := List.nodup_append.1 h
  exact ⟨hn, hrest, fun a ha b hb =>
    hdisjoint _ (List.mem_map_of_mem ha) _ (List.mem_map_of_mem hb)⟩

/-- The branch that is taken has distinct nodes, all of them other than the choice. -/
theorem distinct_choice {id condition : String} {yes no : List Node}
    (h : (Task.node (.choice id condition yes no)).Distinct) (b : Bool) :
    (Task.nodes (if b then yes else no)).Distinct ∧
      ∀ n ∈ Node.listing (if b then yes else no),
        n.id ≠ id ∧ n ∈ (Node.choice id condition yes no).subtree := by
  have h : (id :: (Node.listing yes ++ Node.listing no).map Node.id).Nodup := h
  obtain ⟨hid, hinner⟩ := List.nodup_cons.1 h
  rw [List.map_append] at hinner
  obtain ⟨hyes, hno, -⟩ := List.nodup_append.1 hinner
  have hmem := Node.listing_branch b yes no
  refine ⟨by cases b <;> assumption, fun n hn => ⟨?_, List.mem_cons_of_mem _ (hmem hn)⟩⟩
  rintro rfl
  exact hid (List.mem_map_of_mem (hmem hn))

end Task

/-- Opening an iteration is about its loop alone. -/
theorem deeds_openingOf (frame : Frame) (id : String) (itemAs : Option String) (index : Nat)
    (v : Value) (scope : ScopeId) : deeds (openingOf frame id itemAs index v scope) =
      [.changed frame.top (.startIteration id index v scope)] := by
  have hitem : deeds (itemAs.toList.map fun name =>
      Occurrence.changed scope (.publish (.singleton name v))) = [] := by
    refine deeds_eq_nil fun o ho => ?_
    obtain ⟨name, -, rfl⟩ := List.mem_map.1 ho
    rfl
  rw [openingOf, deeds_append, deeds_append, hitem]
  rfl

/-- Opening an iteration is a deed of the loop and of no other node. -/
theorem about?_of_mem_deeds_openingOf {id : String} {itemAs : Option String} {index : Nat}
    {v : Value} {scope : ScopeId} :
    ∀ o ∈ deeds (openingOf frame id itemAs index v scope), o.about? = some (frame.top, id) := by
  intro o ho
  rw [deeds_openingOf, List.mem_singleton] at ho
  rw [ho]
  rfl

/-- What an iteration tells of its loop: that it starts, and how the loop ends if it fails there. -/
theorem aboutNode_round {id : String} {itemAs : Option String} {index : Nat} {v : Value}
    {scope : ScopeId} {closing : List Occurrence} {outcome : Outcome}
    (hbody : aboutNode frame.top id happened = [])
    (hclosing : deeds closing = endingOf frame.top id outcome) :
    aboutNode frame.top id (openingOf frame id itemAs index v scope ++ happened ++ closing) =
      iterationsOf frame.top id index [⟨v, scope⟩] ++ endingOf frame.top id outcome := by
  have honly : ∀ o ∈ deeds closing, o.about? = some (frame.top, id) := by
    rw [hclosing]
    exact about?_endingOf
  rw [aboutNode_append, aboutNode_append, aboutNode_of_deeds about?_of_mem_deeds_openingOf,
    aboutNode_of_deeds honly, hbody, deeds_openingOf, hclosing]
  rfl

/-- An iteration whose scope is numbered after all others, with what is about the loop in the
    end. -/
theorem Loops.of_round {frame : Frame} {id : String} {itemAs : Option String} {body : List Node}
    {index : Nat} {v : Value} {closing : List Occurrence} {outcome : Outcome} {m₁ : Machine}
    (hm : m.Ready frame)
    (h : Tells (fun s => s = m.store.size ∨ Opened (m.openIteration frame id itemAs index v) m₁ s)
      (Node.listing body) happened)
    (hle : (m.openIteration frame id itemAs index v).store.size ≤ m₁.store.size)
    (hclosing : deeds closing = endingOf frame.top id outcome)
    (hend : m'.store.size = m₁.store.size) :
    Loops frame.top id body index 1 m
      (openingOf frame id itemAs index v m.store.size ++ happened ++ closing) outcome m' := by
  have hsize := size_openIteration m frame id itemAs index v
  have honly : ∀ o ∈ deeds closing, o.about? = some (frame.top, id) := by
    rw [hclosing]
    exact about?_endingOf
  have hlt : m.store.size < m'.store.size := by omega
  have hopened : ∀ s, (s = m.store.size ∨ Opened (m.openIteration frame id itemAs index v) m₁ s) →
      Opened m m' s := by
    rintro s (rfl | hs)
    · exact ⟨Nat.le_refl _, hlt⟩
    · exact hs.weaken (by omega) (Nat.le_of_eq hend.symm)
  constructor
  case own =>
    -- The body runs in scopes that are opened later than the scope of the loop.
    have hbody : aboutNode frame.top id happened = [] := by
      by_contra hne
      exact hm.not_opened m' (hopened _ (h _ _ hne).1)
    exact ⟨[⟨v, m.store.size⟩], fun _ => rfl, aboutNode_round hbody hclosing⟩
  case inner =>
    intro s id' hne
    by_cases heq : (s, id') = (frame.top, id)
    · obtain ⟨rfl, rfl⟩ := Prod.mk.inj heq
      exact absurd (aboutNode_withoutNode_self _ _ _) hne
    · rw [aboutNode_withoutNode heq, aboutNode_append, aboutNode_append,
        aboutNode_of_deeds_of_ne about?_of_mem_deeds_openingOf heq,
        aboutNode_of_deeds_of_ne honly heq, List.nil_append, List.append_nil] at hne ⊢
      exact h.mono hopened (fun _ hn => hn) s id' hne

/-- An iteration and the iterations after it. -/
theorem Loops.append {top : ScopeId} {id : String} {body : List Node} {index rounds : Nat}
    {outcome : Outcome} {m₁ : Machine} {before after : List Occurrence}
    (h : Loops top id body index 1 m before (.ok ()) m₁)
    (h' : Loops top id body (index + 1) rounds m₁ after outcome m')
    (hle : m.store.size ≤ m₁.store.size) (hle' : m₁.store.size ≤ m'.store.size) :
    Loops top id body index (rounds + 1) m (before ++ after) outcome m' := by
  obtain ⟨⟨its, hlength, hown⟩, hinner⟩ := h
  obtain ⟨⟨its', hlength', hown'⟩, hinner'⟩ := h'
  refine ⟨⟨its ++ its', fun hok => ?_, ?_⟩, ?_⟩
  · rw [List.length_append, hlength rfl, hlength' hok, Nat.add_comm]
  · rw [aboutNode_append, hown, hown', iterationsOf_append, hlength rfl, endingOf, List.append_nil,
      List.append_assoc]
  · -- The iterations run the same nodes, but in scopes of their own.
    have hdisjoint : ∀ s, Opened m m₁ s → ¬ Opened m₁ m' s := fun s hs hs' =>
      Nat.not_le_of_lt hs.2 hs'.1
    rw [withoutNode_append]
    refine (hinner.append hinner' fun s hs hs' => absurd hs' (hdisjoint s hs)).mono
      (fun s hs => ?_) fun n hn => ?_
    · exact hs.elim (·.weaken (Nat.le_refl _) hle') (·.weaken hle (Nat.le_refl _))
    · exact or_self_iff.1 (List.mem_append.1 hn)

/-- A loop around its iterations. -/
theorem Loops.around {top : ScopeId} {id : String} {body : List Node} {rounds : Nat}
    {outcome : Outcome} {before : List Occurrence}
    (h : Loops top id body 1 rounds m happened outcome m') (elements : String)
    (itemAs : Option String) (after : List Occurrence)
    (hbefore : deeds before = [.changed top (.startLoop id true)])
    (hafter : deeds after = if outcome = .ok () then [.changed top (.finishLoop id)] else []) :
    Tells (fun s => s = top ∨ Opened m m' s) (Node.loop id elements itemAs body).subtree
      (before ++ happened ++ after) := by
  have honly : ∀ o ∈ deeds before, o.about? = some (top, id) := by
    intro o ho
    rw [hbefore, List.mem_singleton] at ho
    rw [ho]
    rfl
  have honly' : ∀ o ∈ deeds after, o.about? = some (top, id) := by
    intro o ho
    rw [hafter] at ho
    cases outcome with
    | ok =>
      rw [List.mem_singleton.1 ho]
      rfl
    | error f => exact absurd ho List.not_mem_nil
  intro s id' hne
  by_cases heq : (s, id') = (top, id)
  · obtain ⟨rfl, rfl⟩ := Prod.mk.inj heq
    -- The loop's own story is put together from its beginning, its iterations and its end.
    obtain ⟨its, -, hown⟩ := h.own
    refine ⟨.inl rfl, _, List.mem_cons_self, rfl, ?_⟩
    rw [aboutNode_append, aboutNode_append, aboutNode_of_deeds honly, aboutNode_of_deeds honly',
      hbefore, hafter, hown]
    cases outcome with
    | ok =>
      rw [endingOf, List.append_nil]
      exact .finished its
    | error f =>
      rw [← List.append_assoc, if_neg (by simp), List.append_nil]
      exact .broken its f
  · rw [aboutNode_append, aboutNode_append, aboutNode_of_deeds_of_ne honly heq,
      aboutNode_of_deeds_of_ne honly' heq, List.nil_append, List.append_nil] at hne ⊢
    rw [← aboutNode_withoutNode heq] at hne ⊢
    obtain ⟨hs, n, hn, hid, hstory⟩ := h.inner s id' hne
    exact ⟨.inr hs, n, List.mem_cons_of_mem _ hn, hid, hstory⟩

/-! ### Parts of executions

Each lemma is about one kind of task whose parts are known to tell stories. -/

section

variable {m₁ m₂ : Machine} {id elements : String} {itemAs : Option String} {body : List Node}
  {limit : Nat} {outcome : Outcome}

/-- A choice that was decided, and the nodes of its branch. -/
theorem Decides.tells_branch {condition : String} {yes no : List Node} {b : Bool}
    {before after : List Occurrence} (hm : m.Ready frame)
    (h : Decides x frame id condition m before (.ok b) m₁)
    (h' : Exec x frame (.nodes (if b then yes else no)) m₁ after outcome m')
    (hd : (Task.node (.choice id condition yes no)).Distinct)
    (hbranch : m₁.Ready frame → (Task.nodes (if b then yes else no)).Distinct →
      Tells (fun s => s = frame.top ∨ Opened m₁ m' s) (Node.listing (if b then yes else no))
        after) :
    Tells (fun s => s = frame.top ∨ Opened m m' s) (Node.choice id condition yes no).subtree
      (before ++ after) := by
  have hready := (h.extends hm).ready hm
  obtain ⟨hdistinct, hinner⟩ := Task.distinct_choice hd b
  have hdecides := (h.tells yes no hm).here (fun _ hn => hn) m m₁
  have htells := hdecides.andThen (hbranch hready hdistinct) (h.extends hm).size_le
    (h'.extends hready).size_le fun n hn n' hn' => by
      rw [List.mem_singleton.1 hn]
      exact (hinner n' hn').1.symm
  refine htells.mono (fun _ hs => hs) fun n hn => ?_
  rcases List.mem_append.1 hn with hn | hn
  · rw [List.mem_singleton.1 hn]
    exact List.mem_cons_self
  · exact (hinner n hn).2

/-- A loop that does not get its elements: there are no iterations. -/
theorem Awaited.tells_starved {waited : List Occurrence} {e : WaitError} (hm : m.Ready frame)
    (hw : Awaited frame id limit [elements] (m.change frame.top (.startLoop id true)) waited
      (.error e) m₁) :
    Tells (fun s => s = frame.top ∨ Opened m m' s) (Node.loop id elements itemAs body).subtree
      ([.changed frame.top (.startLoop id true)] ++ waited ++
        [.changed frame.top (.failLoop id (Failure.ofWait id e).recordText)]) := by
  have hstory : Story frame.top (.loop id elements itemAs body)
      (deeds ([.changed frame.top (.startLoop id true)] ++ waited ++
        [.changed frame.top (.failLoop id (Failure.ofWait id e).recordText)])) := by
    rw [deeds_append, hw.deeds_after hm]
    exact .broken [] (.ofWait id e)
  refine (Tells.of_deeds hstory).here (fun n hn => ?_) _ _
  rw [List.mem_singleton.1 hn]
  exact List.mem_cons_self

/-- A loop that gets its elements, with its iterations and what is about it in the end. -/
theorem Awaited.tells_rounds {waited : List Occurrence} {values : List Value} {rounds : Nat}
    (itemAs : Option String) (hm : m.Ready frame)
    (hw : Awaited frame id limit [elements] (m.change frame.top (.startLoop id true)) waited
      (.ok values) m₁)
    (h : Loops frame.top id body 1 rounds m₁ happened outcome m₂) (after : List Occurrence)
    (hafter : deeds after =
      if outcome = .ok () then [.changed frame.top (.finishLoop id)] else [])
    (hend : m'.store.size = m₂.store.size) :
    Tells (fun s => s = frame.top ∨ Opened m m' s) (Node.loop id elements itemAs body).subtree
      ([.changed frame.top (.startLoop id true)] ++ waited ++ happened ++ after) :=
  (h.around elements itemAs after (hw.deeds_after hm) hafter).mono
    (fun _ hs => hs.imp_right
      (·.weaken (hw.extends_after (fun _ _ => .ok {}) hm).size_le (Nat.le_of_eq hend.symm)))
    fun _ hn => hn

/-- An iteration that is refused tells of the end of its loop alone. -/
theorem Loops.refused (top : ScopeId) (id : String) (body : List Node) (index rounds : Nat)
    (m m' : Machine) : Loops top id body index rounds m
      [.changed top (.failLoop id Failure.cancelled.recordText)] (.error .cancelled) m' := by
  have honly : ∀ o ∈ [Occurrence.changed top (.failLoop id Failure.cancelled.recordText)],
      o.about? = some (top, id) := by
    intro o ho
    rw [List.mem_singleton.1 ho]
    rfl
  refine ⟨⟨[], nofun, aboutNode_eq_self honly⟩, .of_about? fun o ho => ?_⟩
  obtain ⟨hmem, hne⟩ := List.mem_filter.1 ho
  exact absurd (honly o hmem) (by simpa using hne)

/-- An iteration whose body was run, however the body ended. -/
theorem Exec.tells_round {index : Nat} {v : Value} {closing : List Occurrence} {ended : Outcome}
    (hm : m.Ready frame) (hd : (Task.round id itemAs body index v).Distinct)
    (h : Exec x (frame.inner id index m.store.size) (.nodes body)
      (m.openIteration frame id itemAs index v) happened ended m₁)
    (hbody : (m.openIteration frame id itemAs index v).Ready (frame.inner id index m.store.size) →
      (Task.nodes body).Distinct →
      Tells (fun s => s = m.store.size ∨ Opened (m.openIteration frame id itemAs index v) m₁ s)
        (Node.listing body) happened)
    (hclosing : deeds closing = endingOf frame.top id outcome)
    (hend : m'.store.size = m₁.store.size) :
    Loops frame.top id body index 1 m
      (openingOf frame id itemAs index v m.store.size ++ happened ++ closing) outcome m' := by
  obtain ⟨-, hready⟩ := extends_openIteration x.backend hm id itemAs index v
  exact .of_round hm (hbody hready (List.nodup_cons.1 hd).2) (h.extends hready).size_le hclosing
    hend

end

/-- **Stories.** Executions tell stories. -/
theorem Exec.tells {task : Task} {outcome : Outcome}
    (h : Exec x frame task m happened outcome m') (hm : m.Ready frame) (hd : task.Distinct) :
    task.Told frame.top m happened outcome m' := by
  induction h with
  | nil | stopped => exact Tells.of_about? fun o ho => absurd ho List.not_mem_nil
  | noRounds =>
    exact ⟨⟨[], fun _ => rfl, rfl⟩, .of_about? fun o ho => absurd ho List.not_mem_nil⟩
  | failed _ _ ih =>
    exact Tells.mono (ih hm (Task.distinct_cons hd).1) (fun _ hs => hs)
      fun n => List.mem_append_left _
  | cons _ h h' ih ih' =>
    have hext := h.extends hm
    have hext' := h'.extends (hext.ready hm)
    obtain ⟨hn, hrest, hdisjoint⟩ := Task.distinct_cons hd
    exact Tells.andThen (ih hm hn) (ih' (hext.ready hm) hrest) hext.size_le hext'.size_le hdisjoint
  | action h => exact (h.tells hm).here (fun _ hn => hn) _ _
  | @undecided _ _ _ yes no _ _ _ _ h =>
    refine (h.tells yes no hm).here (fun n hn => ?_) _ _
    rw [List.mem_singleton.1 hn]
    exact List.mem_cons_self
  | decided h h' ih => exact h.tells_branch hm h' hd ih
  | starved hw => exact hw.tells_starved hm
  | @broken _ _ _ itemAs _ _ _ _ _ _ _ _ hw _ ih =>
    have hready := (hw.extends_after x.backend hm).ready hm
    have htells := hw.tells_rounds itemAs hm (ih hready hd) [] rfl rfl
    rwa [List.append_nil] at htells
  | @finished frame id _ _ _ _ _ _ _ _ _ hw _ ih =>
    exact hw.tells_rounds _ hm (ih ((hw.extends_after x.backend hm).ready hm) hd)
      [.changed frame.top (.finishLoop id)] rfl (Machine.size_change _ _ _)
  | lastRound _ ih =>
    obtain ⟨⟨its, -, hown⟩, hinner⟩ := ih hm hd
    exact ⟨⟨its, nofun, hown⟩, hinner⟩
  | nextRound h h' ih ih' =>
    have hext := h.extends hm
    have hext' := h'.extends (hext.ready hm)
    exact Loops.append (ih hm hd) (ih' (hext.ready hm) hd) hext.size_le hext'.size_le
  | refused => exact .refused ..
  | completed _ h ih | passed _ h _ _ ih | interrupted _ h ih =>
    exact h.tells_round hm hd ih rfl (Machine.size_change _ _ _)
  | halted _ h _ _ ih =>
    -- The closing of the inner scope is about no node, so the loop's failure is its whole ending.
    rw [List.append_assoc]
    exact h.tells_round hm hd ih rfl
      ((Machine.size_change _ _ _).trans (Machine.size_change _ _ _))

/-- **The story of a node.** In a run of a graph whose nodes have different ids, all that is told of
    a node of a scope is one story. -/
theorem Started.tells {outcome : Outcome} (h : Started x m happened outcome m')
    (hd : ((Node.listing x.graph.nodes).map Node.id).Nodup) :
    Tells (fun s => s = m.root ∨ Opened m m' s) (Node.listing x.graph.nodes)
      (happened ++ [.changed m.root outcome.closing]) := by
  obtain ⟨m₁, hexec, rfl⟩ := h.exec
  have htells : Tells _ (Node.listing x.graph.nodes) happened := hexec.tells h.ready hd
  have hclosing : Tells (fun _ => False) [] [.changed m.root outcome.closing] :=
    .of_about? fun o ho => by
      rw [List.mem_singleton.1 ho, Occurrence.about?, outcome.closing_of.2]
      rfl
  refine (htells.append hclosing fun _ _ h => h.elim).mono (fun s hs => ?_) fun n hn => ?_
  · exact hs.elim (·.imp_right (·.weaken (Nat.le_refl _)
      (Nat.le_of_eq (Machine.size_change _ _ _).symm))) False.elim
  · rwa [List.append_nil] at hn

/-- **A start tells stories.** What a first start does tells of every node, in each scope, one of
    its stories or nothing. -/
theorem tells_start (x : Execution) (seed : Dict String Value) (events : List Event)
    (hd : ((Node.listing x.graph.nodes).map Node.id).Nodup) :
    Tells (fun s => s < (x.start (.scheduled seed events)).2.store.size)
      (Node.listing x.graph.nodes) (x.start (.scheduled seed events)).2.course := by
  obtain ⟨happened, hstarted, hcourse, -⟩ := start_scheduled x seed events
  have hsize := hstarted.extends.size_le
  rw [hcourse]
  refine (hstarted.tells hd).mono (fun s hs => ?_) fun _ hn => hn
  rcases hs with rfl | hs
  · exact Nat.lt_of_lt_of_le Nat.one_pos hsize
  · exact hs.2

end Runbook
