import Runbook.Proofs.Graph.Build
import Runbook.Proofs.Run.Records

namespace Runbook

/-!
# Running a graph — the tree of scopes

Every iteration runs in a scope of its own.  Once its loop is over, the scope is found again in the
history of the loop, so that nothing that a run has put on record is out of reach.

* `Store.InTree` — the scopes that are reached from a root through the histories of loops;
* `Begun`, `Exec.begun` — a scope that is opened in a run is the scope of an iteration;
* `inTree_start` — after a first run all scopes are reached from the scope of the whole runbook.
-/

/-- The scopes that are reached from a root through the iterations that loops have gone through. -/
inductive Store.InTree (store : Store) (root : ScopeId) : ScopeId → Prop
  | root : InTree store root root
  | child {s : ScopeId} {id : String} {r : LoopRecord} {index : Int} {i : Iteration} :
      InTree store root s → (store.scope s).loops.get? id = some r →
      r.history.get? index = some i → InTree store root i.scope

/-! ### Scopes that are opened -/

/-- Every scope that is opened in a stretch is the scope of an iteration in an earlier scope. -/
def Begun (m : Machine) (happened : List Occurrence) (m' : Machine) : Prop :=
  ∀ t, Opened m m' t → ∃ s id index v,
    .changed s (.startIteration id index v t) ∈ happened ∧ s < t

namespace Begun

variable {m m₁ m' : Machine} {happened before after : List Occurrence}

/-- No scope is opened. -/
theorem of_size (h : m'.store.size = m.store.size) : Begun m happened m' := by
  intro t ht
  exact absurd (Nat.lt_of_le_of_lt ht.1 ht.2) (by rw [h]; exact Nat.lt_irrefl _)

/-- A longer stretch begins what a shorter one did. -/
theorem mono (h : Begun m before m') (hsub : before ⊆ happened) : Begun m happened m' := by
  intro t ht
  obtain ⟨s, id, index, v, hmem, hlt⟩ := h t ht
  exact ⟨s, id, index, v, hsub hmem, hlt⟩

/-- Two stretches in a row. -/
theorem append (h : Begun m before m₁) (h' : Begun m₁ after m') :
    Begun m (before ++ after) m' := by
  intro t ht
  -- A scope belongs to the stretch in which it was opened.
  by_cases hlt : t < m₁.store.size
  · exact h.mono (List.subset_append_left _ _) t ⟨ht.1, hlt⟩
  · exact h'.mono (List.subset_append_right _ _) t ⟨Nat.le_of_not_lt hlt, ht.2⟩

/-- A change opens no scope. -/
theorem andChange (h : Begun m happened m') (s t : ScopeId) (c : Change) :
    Begun m (happened ++ [.changed s c]) (m'.change t c) :=
  h.append (.of_size (Machine.size_change _ _ _))

end Begun

variable {x : Execution} {frame : Frame} {m m' : Machine} {happened : List Occurrence}

/-- Others open no scope. -/
theorem countP_opens_of_foreign {root : ScopeId} (h : ∀ o ∈ happened, o.IsForeign root) :
    happened.countP Occurrence.opens = 0 := by
  refine List.countP_eq_zero.2 fun o ho hopens => ?_
  cases o with
  | opened => exact h _ ho
  | _ => cases hopens

/-- Waiting opens no scope, since only `Machine.pushChild` does. -/
theorem Awaited.begun {c : Change} {id : String} {limit : Nat} {tokens : List String}
    {answer : Except WaitError (List Value)} (hm : m.Ready frame)
    (h : Awaited frame id limit tokens (m.change frame.top c) happened answer m') :
    Begun m ([.changed frame.top c] ++ happened) m' := by
  refine .of_size ?_
  rw [(h.extends_after (fun _ _ => .ok {}) hm).size, List.countP_append,
    countP_opens_of_foreign (h.foreign_after hm)]
  rfl

/-- An action opens no scope. -/
theorem Acts.begun {id urn : String} {params exports : Dict String String} {outcome : Outcome}
    (h : Acts x frame id urn params exports m happened outcome m') (hm : m.Ready frame) :
    Begun m happened m' := by
  refine .of_size ?_
  rw [(h.extends hm).size]
  cases h with
  | starved hw =>
    rw [List.countP_append, List.countP_append, countP_opens_of_foreign (hw.foreign_after hm)]
    rfl
  | failed hw hcall =>
    rw [List.countP_append, List.countP_append, List.countP_append, List.countP_append,
      List.countP_append, countP_opens_of_foreign (hw.foreign_after hm),
      countP_opens_of_foreign (hw.heard_foreign hm hcall)]
    rfl
  | done hw hcall =>
    have hpublication : ∀ values : Dict String Value,
        (Occurrence.publication frame.stack.scopes values).countP Occurrence.opens = 0 := by
      refine fun values => List.countP_eq_zero.2 fun o ho hopens => ?_
      rw [Occurrence.eq_of_mem_publication ho] at hopens
      cases hopens
    rw [List.countP_append, List.countP_append, List.countP_append, List.countP_append,
      List.countP_append, List.countP_append, countP_opens_of_foreign (hw.foreign_after hm),
      countP_opens_of_foreign (hw.heard_foreign hm hcall), hpublication]
    rfl

/-- Deciding opens no scope. -/
theorem Decides.begun {id condition : String} {answer : Except Failure Bool}
    (h : Decides x frame id condition m happened answer m') (hm : m.Ready frame) :
    Begun m happened m' := by
  cases h with
  | malformed =>
    have hstart : Begun m [.changed frame.top (.startChoice id)]
        (m.change frame.top (.startChoice id)) := .of_size (Machine.size_change _ _ _)
    exact hstart.andChange _ _ _
  | starved _ hw | undecidable _ hw | decided _ hw => exact (hw.begun hm).andChange _ _ _

/-- Opening an iteration opens one scope. -/
theorem begun_openIteration (hm : m.Ready frame) (id : String) (itemAs : Option String)
    (index : Nat) (v : Value) :
    Begun m (openingOf frame id itemAs index v m.store.size)
      (m.openIteration frame id itemAs index v) := by
  intro t ht
  have hsize := size_openIteration m frame id itemAs index v
  have hlt : t < m.store.size + 1 := by
    rw [← hsize]
    exact ht.2
  obtain rfl : m.store.size = t := Nat.le_antisymm ht.1 (Nat.le_of_lt_succ hlt)
  refine ⟨frame.top, id, index, v, ?_, hm.top⟩
  simp [openingOf]

/-- **Scopes of iterations.** Every scope that an execution opens is the scope of an iteration. -/
theorem Exec.begun {task : Task} {outcome : Outcome}
    (h : Exec x frame task m happened outcome m') (hm : m.Ready frame) : Begun m happened m' := by
  induction h with
  | nil | stopped | noRounds => exact .of_size rfl
  | failed _ _ ih | lastRound _ ih => exact ih hm
  | cons _ h _ ih ih' | nextRound h _ ih ih' => exact (ih hm).append (ih' ((h.extends hm).ready hm))
  | action h => exact h.begun hm
  | undecided h => exact h.begun hm
  | decided h _ ih => exact (h.begun hm).append (ih ((h.extends hm).ready hm))
  | starved hw => exact (hw.begun hm).andChange _ _ _
  | broken hw _ ih => exact (hw.begun hm).append (ih ((hw.extends_after x.backend hm).ready hm))
  | finished hw _ ih =>
    exact ((hw.begun hm).append (ih ((hw.extends_after x.backend hm).ready hm))).andChange _ _ _
  | refused => exact .of_size (Machine.size_change _ _ _)
  | completed _ _ ih | passed _ _ _ _ ih | interrupted _ _ ih =>
    obtain ⟨-, hready⟩ := extends_openIteration x.backend hm _ _ _ _
    exact ((begun_openIteration hm _ _ _ _).append (ih hready)).andChange _ _ _
  | halted _ _ _ _ ih =>
    obtain ⟨-, hready⟩ := extends_openIteration x.backend hm _ _ _ _
    exact (((begun_openIteration hm _ _ _ _).append (ih hready)).andChange _ _ _).andChange _ _ _

/-! ### All scopes are in the tree -/

/-- `iterationsOf` puts on record the iterations that it is given. -/
theorem mem_iterationsOf {s : ScopeId} {id id' : String} {index : Int} {v : Value} {t : ScopeId}
    {its : List Iteration} {first : Nat}
    (h : .changed s (.startIteration id' index v t) ∈ iterationsOf s id first its) :
    ⟨v, t⟩ ∈ its := by
  obtain ⟨k, i, hi, heq⟩ := eq_of_mem_iterationsOf h
  cases heq
  exact hi

/-- The iterations that a story tells of are left behind in the history of its node. -/
theorem Story.mem_history {s : ScopeId} {n : Node} {story : List Occurrence} (h : Story s n story)
    {id : String} {index : Int} {v : Value} {t : ScopeId}
    (hmem : .changed s (.startIteration id index v t) ∈ story) :
    ∃ (r : LoopRecord) (k : Int), ((Scope.leftBy s story).recordsOf n.id).2.2 = some r ∧
      r.history.get? k = some ⟨v, t⟩ := by
  have hloop : ∀ {id' : String} {c : Change} {its : List Iteration},
      (c = .finishLoop id' ∨ ∃ reason, c = .failLoop id' reason) →
      .changed s (.startIteration id index v t) ∈
        [.changed s (.startLoop id' true)] ++ iterationsOf s id' 1 its ++ [.changed s c] →
      ∃ (r : LoopRecord) (k : Int),
        ((Scope.leftBy s ([.changed s (.startLoop id' true)] ++ iterationsOf s id' 1 its ++
          [.changed s c])).recordsOf id').2.2 = some r ∧ r.history.get? k = some ⟨v, t⟩ := by
    intro id' c its hc hmem
    have hits : ⟨v, t⟩ ∈ its := by
      rcases hc with rfl | ⟨reason, rfl⟩ <;>
        exact mem_iterationsOf (by simpa using hmem)
    obtain ⟨k, hk⟩ := mem_numbered hits
    refine ⟨_, k, by rw [Scope.leftBy_eq_after, recordsOf_loop _ hc], Dict.mem_entries.1 ?_⟩
    rwa [LoopRecord.over, entries_historyOf]
  cases h with
  | broken its f => exact hloop (.inr ⟨_, rfl⟩) hmem
  | finished its => exact hloop (.inl rfl) hmem
  | _ => simp at hmem

/-- **The tree of scopes.** After a first run every scope is reached from the scope of the whole
    runbook. -/
theorem inTree_start (x : Execution) (seed : Dict String Value) (events : List Event)
    (hd : ((Node.listing x.graph.nodes).map Node.id).Nodup) (s : ScopeId)
    (hs : s < (x.start (.scheduled seed events)).2.store.size) :
    (x.start (.scheduled seed events)).2.store.InTree (x.start (.scheduled seed events)).2.root
      s := by
  have htells := tells_start x seed events hd
  obtain ⟨happened, hstarted, hcourse, hsound⟩ := start_scheduled x seed events
  obtain ⟨m₁, hexec, hend⟩ := hstarted.exec
  have hbegun : Begun (.scheduled seed events) (x.start (.scheduled seed events)).2.course
      (x.start (.scheduled seed events)).2 := by
    rw [hcourse, hend]
    exact (hexec.begun hstarted.ready).andChange _ _ _
  clear hend hexec hstarted hcourse
  generalize (x.start (.scheduled seed events)).2 = m at *
  rw [hsound.root]
  -- The scope around an iteration was opened before the scope of the iteration.
  induction s using Nat.strongRecOn with
  | ind t ih =>
    by_cases hzero : t = 0
    · rw [hzero]
      exact .root
    · -- It was opened for an iteration, which the loop still lists when it is over.
      have hpos : 1 ≤ t := Nat.one_le_iff_ne_zero.2 hzero
      obtain ⟨s, id, index, v, hmem, hlt⟩ := hbegun t ⟨hpos, hs⟩
      have hmem' : .changed s (.startIteration id index v t) ∈ aboutNode s id m.course :=
        mem_aboutNode.2 ⟨hmem, rfl⟩
      obtain ⟨hsize, n, -, rfl, hstory⟩ := htells s id (List.ne_nil_of_mem hmem')
      obtain ⟨r, k, hr, hk⟩ := hstory.mem_history hmem'
      rw [← hsound.recordsOf] at hr
      exact .child (ih s hlt hsize) hr hk

/-! ### A run with a loop in a choice -/

/-- A run of `nestedGraph` whose backend answers the first call and fails all later ones. -/
def nestedRun : Execution where
  graph := Graph.nestedGraph
  backend before call := if before.isEmpty then .ok {} else .error (.failed call.urn "busy")
  options := { onFailure := .halt }

/-- The condition comes true, then the loop gets two elements. -/
def nestedEvents : List Event :=
  [⟨.anyWait, .publish (.singleton "a" (.scalar "1"))⟩,
    ⟨.anyWait, .publish (.singleton "h" (.list ["p", "q"]))⟩]

example : (nestedRun.start (.scheduled ∅ nestedEvents)).2.store.size = 3 := by decide +kernel

end Runbook
