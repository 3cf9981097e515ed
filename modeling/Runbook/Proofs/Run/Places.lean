import Mathlib.Data.List.Induction
import Runbook.Proofs.Run.Histories

namespace Runbook

/-!
# Running a graph — the places of nodes

A scope is told by the iterations that lead to it from the scope of the whole runbook, and a node
that was run by its scope and its id.  This file says which nodes a run comes to, from the top of
the graph down through the branches that were chosen and the iterations that began.

* `Place`, `Store.scopeAt?` — the iterations that lead to a scope, and the scope they lead to;
* `Meets` — the nodes that a course comes to;
* `Exec.meets` — a node whose record is made anew is one of them, by induction on executions;
* `Record`, `Story.of_record` — what is on record of a node, and that it is of the node's kind;
* `place_unique` — after a first run no scope has two places.
-/

/-! ### Places -/

/-- The iterations that lead to a scope, the outermost first: each by the id of its loop and its
    number. -/
abbrev Place := List (String × Int)

/-- The scope that iterations lead to, by the histories of their loops. -/
def Store.scopeAt? (store : Store) (s : ScopeId) : Place → Option ScopeId
  | [] => some s
  | (id, k) :: rest =>
    (((store.scope s).loops.get? id).bind fun r => r.history.get? k).bind fun i : Iteration =>
      scopeAt? store i.scope rest

/-- A place inside a place is found from the scope of the outer one. -/
theorem Store.scopeAt?_append (store : Store) (place place' : Place) : ∀ s : ScopeId,
    store.scopeAt? s (place ++ place') =
      (store.scopeAt? s place).bind fun t => store.scopeAt? t place' := by
  induction place with
  | nil => exact fun s => rfl
  | cons p rest ih =>
    intro s
    simp only [List.cons_append, scopeAt?, ih, Option.bind_assoc]

/-- The last iteration on the way to a scope runs in that scope. -/
theorem Store.scopeAt?_concat {store : Store} {s t : ScopeId} {place : Place} {id : String}
    {k : Int} (h : store.scopeAt? s (place ++ [(id, k)]) = some t) :
    ∃ u r i, store.scopeAt? s place = some u ∧ (store.scope u).loops.get? id = some r ∧
      r.history.get? k = some i ∧ i.scope = t := by
  rw [scopeAt?_append, Option.bind_eq_some_iff] at h
  obtain ⟨u, hu, hlast⟩ := h
  rw [scopeAt?, Option.bind_eq_some_iff] at hlast
  obtain ⟨i, hi, ht⟩ := hlast
  obtain ⟨r, hr, hk⟩ := Option.bind_eq_some_iff.1 hi
  exact ⟨u, r, i, hu, hr, hk, Option.some.inj ht⟩

/-! ### Nodes that a course comes to -/

/-- A course comes from nodes of the scope `top` to a node of the scope `s`: on the way every choice
    has decided for the branch taken, and every iteration has begun. -/
inductive Meets (course : List Occurrence) : ScopeId → List Node → ScopeId → Node → Prop
  | here {top : ScopeId} {nodes : List Node} {n : Node} :
      n ∈ nodes → Meets course top nodes top n
  | branch {top s : ScopeId} {nodes yes no : List Node} {n : Node} {id condition : String}
      {b : Bool} {used : Dict String String} :
      .choice id condition yes no ∈ nodes →
      .changed top (.decideChoice id b used) ∈ course →
      Meets course top (if b then yes else no) s n → Meets course top nodes s n
  | iteration {top t s : ScopeId} {nodes body : List Node} {n : Node} {id elements : String}
      {itemAs : Option String} {k : Int} {v : Value} :
      .loop id elements itemAs body ∈ nodes →
      .changed top (.startIteration id k v t) ∈ course →
      Meets course t body s n → Meets course top nodes s n

/-- A longer course meets the same nodes, and so do more nodes. -/
theorem Meets.mono {course course' : List Occurrence} {top s : ScopeId} {nodes nodes' : List Node}
    {n : Node} (h : Meets course top nodes s n) (hcourse : course ⊆ course')
    (hnodes : nodes ⊆ nodes') : Meets course' top nodes' s n := by
  induction h generalizing nodes' with
  | here hn => exact .here (hnodes hn)
  | branch hn hdecide _ ih => exact .branch (hnodes hn) (hcourse hdecide) (ih fun _ hn => hn)
  | iteration hn hstart _ ih => exact .iteration (hnodes hn) (hcourse hstart) (ih fun _ hn => hn)

/-- A stretch comes from a task of the scope `top` to a node. -/
def Task.Meets (happened : List Occurrence) (top s : ScopeId) (n : Node) : Task → Prop
  | .nodes list => Runbook.Meets happened top list s n
  | .node n' => Runbook.Meets happened top [n'] s n
  | .rounds id _ body _ _ | .round id _ body _ _ =>
    ∃ (k : Int) (v : Value) (t : ScopeId), .changed top (.startIteration id k v t) ∈ happened ∧
      Runbook.Meets happened t body s n

/-- A longer course meets the nodes of a task that a shorter one met. -/
theorem Task.Meets.mono {happened happened' : List Occurrence} {top s : ScopeId} {n : Node}
    {task : Task} (h : task.Meets happened top s n) (hsub : happened ⊆ happened') :
    task.Meets happened' top s n := by
  cases task with
  | nodes | node => exact Runbook.Meets.mono h hsub fun _ hn => hn
  | rounds | round =>
    obtain ⟨k, v, t, hstart, hbody⟩ := h
    exact ⟨k, v, t, hsub hstart, hbody.mono hsub fun _ hn => hn⟩

variable {x : Execution} {frame : Frame} {m m' : Machine} {happened : List Occurrence}

/-- What tells of one node alone comes to it. -/
theorem Tells.meets {top s : ScopeId} {n : Node} {c : Change} (h : Tells (· = top) [n] happened)
    (ho : .changed s c ∈ happened) (hc : c.starts) :
    ∃ n', n'.start = c ∧ Meets happened top [n] s n' := by
  obtain ⟨rfl, hstart⟩ := h.eq_start ho hc
  exact ⟨n, hstart, .here List.mem_cons_self⟩

/-- A choice that is decided has its decision on record. -/
theorem Decides.decision {id condition : String} {b : Bool}
    (h : Decides x frame id condition m happened (.ok b) m') :
    ∃ used, .changed frame.top (.decideChoice id b used) ∈ happened := by
  cases h with
  | decided => exact ⟨_, List.mem_append_right _ List.mem_cons_self⟩

/-- A loop comes to its own record, which is made before the elements are waited for. -/
theorem Awaited.meets {id elements : String} {itemAs : Option String} {body : List Node}
    {limit : Nat} {tokens : List String} {answer : Except WaitError (List Value)} {s : ScopeId}
    {c : Change} {during : List Occurrence} (hm : m.Ready frame)
    (h : Awaited frame id limit tokens (m.change frame.top (.startLoop id true)) happened answer m')
    (ho : .changed s c ∈ [.changed frame.top (.startLoop id true)] ++ happened) :
    ∃ n, n.start = c ∧ Meets during frame.top [.loop id elements itemAs body] s n := by
  obtain ⟨rfl, rfl⟩ := h.eq_of_mem hm ho
  exact ⟨_, rfl, .here List.mem_cons_self⟩

/-- What an iteration comes to it comes to in its body. -/
theorem meets_round {id : String} {itemAs : Option String} {body : List Node} {index : Nat}
    {v : Value} {closing : List Occurrence} {s : ScopeId} {c : Change}
    (hbody : .changed s c ∈ happened → ∃ n, n.start = c ∧ Meets happened m.store.size body s n)
    (hclosing : .changed s c ∉ closing)
    (ho : .changed s c ∈ openingOf frame id itemAs index v m.store.size ++ happened ++ closing)
    (hc : c.starts) :
    ∃ n, n.start = c ∧ (Task.round id itemAs body index v).Meets
      (openingOf frame id itemAs index v m.store.size ++ happened ++ closing) frame.top s n := by
  have hmem : .changed s c ∈ happened :=
    (List.mem_append.1 ((List.mem_append.1 ho).resolve_right hclosing)).resolve_left
      (not_mem_openingOf hc)
  obtain ⟨n, hn, hmeets⟩ := hbody hmem
  have hsub : happened ⊆ openingOf frame id itemAs index v m.store.size ++ happened ++ closing :=
    List.Subset.trans (List.subset_append_right _ _) (List.subset_append_left _ _)
  refine ⟨n, hn, index, v, m.store.size, ?_, hmeets.mono hsub fun _ hn => hn⟩
  simp [openingOf]

/-- **Places of nodes.** A node whose record is made anew in an execution is one that the execution
    comes to. -/
theorem Exec.meets {task : Task} {outcome : Outcome} {s : ScopeId} {c : Change}
    (h : Exec x frame task m happened outcome m') (hm : m.Ready frame)
    (ho : .changed s c ∈ happened) (hc : c.starts) :
    ∃ n, n.start = c ∧ task.Meets happened frame.top s n := by
  induction h with
  | nil | stopped | noRounds => exact absurd ho List.not_mem_nil
  | @failed _ _ rest _ _ _ _ _ _ ih =>
    obtain ⟨n, hn, hmeets⟩ := ih hm ho
    exact ⟨n, hn, Meets.mono hmeets (fun _ ho => ho) (by simp)⟩
  | cons _ h _ ih ih' =>
    rcases List.mem_append.1 ho with ho | ho
    · obtain ⟨n, hn, hmeets⟩ := ih hm ho
      exact ⟨n, hn, Meets.mono hmeets (List.subset_append_left _ _) (by simp)⟩
    · obtain ⟨n, hn, hmeets⟩ := ih' ((h.extends hm).ready hm) ho
      exact ⟨n, hn, Meets.mono hmeets (List.subset_append_right _ _) (List.subset_cons_self _ _)⟩
  | action h => exact (h.tells hm).meets ho hc
  | @undecided _ _ _ yes no _ _ _ _ h => exact (h.tells yes no hm).meets ho hc
  | @decided frame id condition yes no m m₁ m' before after b _ h _ ih =>
    rcases List.mem_append.1 ho with ho | ho
    · obtain ⟨n, hn, hmeets⟩ := (h.tells yes no hm).meets ho hc
      exact ⟨n, hn, hmeets.mono (List.subset_append_left _ _) fun _ hn => hn⟩
    · obtain ⟨n, hn, hmeets⟩ := ih ((h.extends hm).ready hm) ho
      obtain ⟨used, hdecide⟩ := h.decision
      -- The decision on record leads into the branch.
      refine ⟨n, hn, .branch List.mem_cons_self (List.mem_append_left _ hdecide) ?_⟩
      exact Meets.mono hmeets (List.subset_append_right _ _) fun _ hn => hn
  | starved hw =>
    exact hw.meets hm ((List.mem_append.1 ho).resolve_right (not_mem_changed hc rfl))
  | broken hw _ ih =>
    rcases List.mem_append.1 ho with ho | ho
    · exact hw.meets hm ho
    · obtain ⟨n, hn, hmeets⟩ := ih ((hw.extends_after x.backend hm).ready hm) ho
      -- The rounds lead into the iteration that the node is run in.
      obtain ⟨k, v, t, hstart, hbody⟩ := hmeets.mono (List.subset_append_right _ _)
      exact ⟨n, hn, .iteration List.mem_cons_self hstart hbody⟩
  | finished hw _ ih =>
    rcases List.mem_append.1 ((List.mem_append.1 ho).resolve_right (not_mem_changed hc rfl))
      with ho | ho
    · exact hw.meets hm ho
    · obtain ⟨n, hn, hmeets⟩ := ih ((hw.extends_after x.backend hm).ready hm) ho
      obtain ⟨k, v, t, hstart, hbody⟩ := hmeets.mono
        (List.Subset.trans (List.subset_append_right _ _) (List.subset_append_left _ _))
      exact ⟨n, hn, .iteration List.mem_cons_self hstart hbody⟩
  | lastRound _ ih => exact ih hm ho
  | nextRound h _ ih ih' =>
    rcases List.mem_append.1 ho with ho | ho
    · obtain ⟨n, hn, hmeets⟩ := ih hm ho
      exact ⟨n, hn, hmeets.mono (List.subset_append_left _ _)⟩
    · obtain ⟨n, hn, hmeets⟩ := ih' ((h.extends hm).ready hm) ho
      exact ⟨n, hn, hmeets.mono (List.subset_append_right _ _)⟩
  | refused => exact absurd ho (not_mem_changed hc rfl)
  | completed _ _ ih | passed _ _ _ _ ih | interrupted _ _ ih =>
    obtain ⟨-, hready⟩ := extends_openIteration x.backend hm _ _ _ _
    exact meets_round (ih hready) (not_mem_changed hc rfl) ho hc
  | halted _ _ _ _ ih =>
    obtain ⟨-, hready⟩ := extends_openIteration x.backend hm _ _ _ _
    -- Two changes end a round that halts: of its scope, and of the record of the loop.
    rw [List.append_assoc] at ho ⊢
    exact meets_round (ih hready) (fun hmem => (List.mem_append.1 hmem).elim
      (not_mem_changed hc rfl) (not_mem_changed hc rfl)) ho hc

/-! ### Records of nodes -/

namespace Change

/-- What the change leaves on record of a choice that it ends, and of which one. -/
def verdict? : Change → Option (String × ChoiceRecord)
  | decideChoice id b used => some (id, { done := true, outcome := some b, used := used })
  | failChoice id e => some (id, { done := true, error := some e })
  | _ => none

/-- A verdict is about the choice that is decided. -/
theorem node?_of_verdict? {c : Change} {id : String} {r : ChoiceRecord}
    (h : c.verdict? = some (id, r)) : c.node? = some id := by
  cases c with
  | decideChoice | failChoice => exact congrArg (Option.map Prod.fst) h
  | _ => cases h

end Change

/-- What is on record of a node. -/
inductive Record where
  | action (r : ActionRecord)
  | choice (r : ChoiceRecord)
  | loop (r : LoopRecord)

/-- A scope has something on record of a node. -/
inductive Scope.Holds (s : Scope) (id : String) : Record → Prop
  | action {r : ActionRecord} : s.actions.get? id = some r → Holds s id (.action r)
  | choice {r : ChoiceRecord} : s.choices.get? id = some r → Holds s id (.choice r)
  | loop {r : LoopRecord} : s.loops.get? id = some r → Holds s id (.loop r)

namespace Record

/-- The change that makes a record anew. -/
def start (id : String) : Record → Change
  | action _ => .startAction id
  | choice _ => .startChoice id
  | loop _ => .startLoop id true

/-- All that is on record of a node which has this record and no other. -/
def alone : Record → Option ActionRecord × Option ChoiceRecord × Option LoopRecord
  | action r => (some r, none, none)
  | choice r => (none, some r, none)
  | loop r => (none, none, some r)

/-- The record of a node begins with its start. -/
theorem starts_start (id : String) (r : Record) : (r.start id).starts := by
  cases r <;> rfl

end Record

namespace Scope.Holds

variable {s : Scope} {id : String} {r r' : Record}

/-- A node has no other record than the one it has alone. -/
theorem eq_of_alone (h : s.Holds id r) (halone : s.recordsOf id = r'.alone) : r = r' := by
  cases h with
  | action hr =>
    have hfirst := (congrArg Prod.fst halone).symm.trans hr
    cases r' <;> cases hfirst
    rfl
  | choice hr =>
    have hsecond := (congrArg (fun records => records.2.1) halone).symm.trans hr
    cases r' <;> cases hsecond
    rfl
  | loop hr =>
    have hthird := (congrArg (fun records => records.2.2) halone).symm.trans hr
    cases r' <;> cases hthird
    rfl

/-- A record that a node has alone is held. -/
theorem of_alone (halone : s.recordsOf id = r.alone) : s.Holds id r := by
  cases r with
  | action => exact .action (congrArg Prod.fst halone)
  | choice => exact .choice (congrArg (fun records => records.2.1) halone)
  | loop => exact .loop (congrArg (fun records => records.2.2) halone)

end Scope.Holds

/-- A story makes the record of its node anew. -/
theorem Story.start_mem {s : ScopeId} {n : Node} {story : List Occurrence} (h : Story s n story) :
    .changed s n.start ∈ story := by
  cases h <;> exact List.mem_cons_self

/-- **One record.** A story leaves one record of its node behind, and the record is of the node's
    kind. -/
theorem Story.of_record {s : ScopeId} {n : Node} {story : List Occurrence} (h : Story s n story) :
    ∃ r : Record, (Scope.leftBy s story).recordsOf n.id = r.alone ∧ r.start n.id = n.start := by
  rw [Scope.leftBy_eq_after]
  cases h with
  | starved e => exact ⟨.action _, recordsOf_starved _ _ _ _, rfl⟩
  | failed values e => exact ⟨.action _, recordsOf_failed _ _ _ _ _ _, rfl⟩
  | done values result => exact ⟨.action _, recordsOf_done _ _ _ _ _ _ _, rfl⟩
  | undecided f => exact ⟨.choice _, recordsOf_undecided _ _ _ _, rfl⟩
  | decided b used => exact ⟨.choice _, recordsOf_decided _ _ _ _ _, rfl⟩
  | broken its f => exact ⟨.loop _, recordsOf_loop _ (.inr ⟨_, rfl⟩) its, rfl⟩
  | finished its => exact ⟨.loop _, recordsOf_loop _ (.inl rfl) its, rfl⟩

section

variable {backend : Backend} {seed : Dict String Value} {scopes : ScopeId → Prop}
  {nodes : List Node} {s : ScopeId} {id : String}

/-- What is on record of a node was made anew in the run, and nothing else is on record of it. -/
theorem Tells.of_holds (h : Tells scopes nodes m.course) (hm : m.Sound backend seed) {r : Record}
    (hr : (m.store.scope s).Holds id r) :
    .changed s (r.start id) ∈ m.course ∧ ∀ r', (m.store.scope s).Holds id r' → r' = r := by
  have hrecords := hm.recordsOf s id
  have htold : aboutNode s id m.course ≠ [] := by
    intro hnil
    rw [hnil] at hrecords
    have hempty : (m.store.scope s).recordsOf id = (none, none, none) := hrecords
    cases hr with
    | action hr => cases (congrArg Prod.fst hempty).symm.trans hr
    | choice hr => cases (congrArg (fun records => records.2.1) hempty).symm.trans hr
    | loop hr => cases (congrArg (fun records => records.2.2) hempty).symm.trans hr
  obtain ⟨-, n, -, rfl, hstory⟩ := h s id htold
  obtain ⟨r', halone, hstart⟩ := hstory.of_record
  rw [← hrecords] at halone
  obtain rfl := hr.eq_of_alone halone
  exact ⟨hstart ▸ (mem_aboutNode.1 hstory.start_mem).1, fun r' hr' => hr'.eq_of_alone halone⟩

/-- A record that is made anew in a run is still there at its end. -/
theorem Tells.of_start (h : Tells scopes nodes m.course) (hm : m.Sound backend seed) {n : Node}
    (hstart : .changed s n.start ∈ m.course) :
    ∃ r, (m.store.scope s).Holds n.id r ∧ r.start n.id = n.start := by
  have hmem : .changed s n.start ∈ aboutNode s n.id m.course :=
    mem_aboutNode.2 ⟨hstart, by cases n <;> rfl⟩
  obtain ⟨-, n', -, hid, hstory⟩ := h s n.id (List.ne_nil_of_mem hmem)
  obtain ⟨r, halone, hr⟩ := hstory.of_record
  rw [hid] at halone hr
  rw [← hm.recordsOf] at halone
  exact ⟨r, .of_alone halone, hr.trans (hstory.eq_start hmem (by cases n <;> rfl)).symm⟩

/-- The decision of a choice and its failure are still on record at the end of a run. -/
theorem Tells.of_verdict (h : Tells scopes nodes m.course) (hm : m.Sound backend seed) {c : Change}
    {r : ChoiceRecord} (hc : c.verdict? = some (id, r)) (hverdict : .changed s c ∈ m.course) :
    (m.store.scope s).choices.get? id = some r := by
  have hnode := Change.node?_of_verdict? hc
  have hmem : .changed s c ∈ aboutNode s id m.course :=
    mem_aboutNode.2 ⟨hverdict, by rw [Occurrence.about?, hnode]; rfl⟩
  obtain ⟨-, n, -, rfl, hstory⟩ := h s id (List.ne_nil_of_mem hmem)
  have hrecords := hm.recordsOf s n.id
  generalize aboutNode s n.id m.course = story at hmem hstory hrecords
  rw [Scope.leftBy_eq_after] at hrecords
  -- Nothing in the story of a loop decides a choice.
  have hloop : ∀ {its : List Iteration} {id' : String} {d : Change}, d.verdict? = none →
      .changed s c ∉ [.changed s (.startLoop id' true)] ++ iterationsOf s id' 1 its ++
        [.changed s d] := by
    intro its id' d hd hmem
    simp only [List.mem_append, List.mem_singleton, Occurrence.changed.injEq, true_and] at hmem
    rcases hmem with (rfl | hmem) | rfl
    · cases hc
    · obtain ⟨k, i, -, heq⟩ := eq_of_mem_iterationsOf hmem
      cases heq
      cases hc
    · rw [hd] at hc
      cases hc
  -- Only the stories of choices have verdicts in them.
  cases hstory with
  | undecided f =>
    have hrecord := congrArg (fun records => records.2.1)
      (hrecords.trans (recordsOf_undecided {} s _ f.recordText))
    refine hrecord.trans ?_
    simp only [List.mem_cons, Occurrence.changed.injEq, true_and, List.not_mem_nil, or_false]
      at hmem
    rcases hmem with rfl | rfl <;> cases hc
    rfl
  | decided b used =>
    have hrecord := congrArg (fun records => records.2.1)
      (hrecords.trans (recordsOf_decided {} s _ b used))
    refine hrecord.trans ?_
    simp only [List.mem_cons, Occurrence.changed.injEq, true_and, List.not_mem_nil, or_false]
      at hmem
    rcases hmem with rfl | rfl <;> cases hc
    rfl
  | broken its f => exact absurd hmem (hloop rfl)
  | finished its => exact absurd hmem (hloop rfl)
  | _ =>
    simp only [List.mem_cons, Occurrence.changed.injEq, true_and, List.not_mem_nil, or_false,
      reduceCtorEq, false_or] at hmem
    rcases hmem with rfl | rfl | rfl <;> cases hc

/-- A choice that has decided has its outcome on record. -/
theorem Tells.of_decision (h : Tells scopes nodes m.course) (hm : m.Sound backend seed) {b : Bool}
    {used : Dict String String} (hdecide : .changed s (.decideChoice id b used) ∈ m.course) :
    ∃ r, (m.store.scope s).choices.get? id = some r ∧ r.outcome = some b :=
  ⟨_, h.of_verdict hm rfl hdecide, rfl⟩

/-- An iteration that has begun is in the history of its loop. -/
theorem Tells.of_iteration (h : Tells scopes nodes m.course) (hm : m.Sound backend seed) {k : Int}
    {v : Value} {t : ScopeId} (hstart : .changed s (.startIteration id k v t) ∈ m.course) :
    ∃ (r : LoopRecord) (k' : Int), (m.store.scope s).loops.get? id = some r ∧
      r.history.get? k' = some ⟨v, t⟩ := by
  have hmem : .changed s (.startIteration id k v t) ∈ aboutNode s id m.course :=
    mem_aboutNode.2 ⟨hstart, rfl⟩
  obtain ⟨-, n, -, rfl, hstory⟩ := h s id (List.ne_nil_of_mem hmem)
  obtain ⟨r, k', hr, hk⟩ := hstory.mem_history hmem
  rw [← hm.recordsOf] at hr
  exact ⟨r, k', hr, hk⟩

/-- What is on record as an iteration runs in a scope that was opened in the run. -/
theorem Tells.pos_of_child (h : Tells scopes nodes m.course) (hm : m.Sound x.backend seed)
    {count : Nat} (hnumbers : m.course.filterMap Occurrence.child? = List.range' 1 count)
    {r : LoopRecord} {k : Int} {i : Iteration} (hr : (m.store.scope s).loops.get? id = some r)
    (hi : r.history.get? k = some i) : 1 ≤ i.scope := by
  have hchild : i.scope ∈ m.course.filterMap Occurrence.child? :=
    List.mem_filterMap.2 ⟨_, h.began hm hr hi, rfl⟩
  rw [hnumbers] at hchild
  exact (List.mem_range'_1.1 hchild).1

/-- **Places of scopes.** A scope that two ways lead to is reached by the same way twice. -/
theorem Tells.place_unique (h : Tells scopes nodes m.course) (hm : m.Sound x.backend seed)
    {count : Nat} (hnumbers : m.course.filterMap Occurrence.child? = List.range' 1 count)
    {place : Place} : ∀ {place' : Place} {s : ScopeId}, m.store.scopeAt? 0 place = some s →
      m.store.scopeAt? 0 place' = some s → place = place' := by
  induction place using List.reverseRecOn with
  | nil =>
    intro place' s hs hs'
    obtain rfl := Option.some.inj hs
    rcases List.eq_nil_or_concat' place' with rfl | ⟨init, ⟨id, k⟩, rfl⟩
    · rfl
    · -- No iteration runs in the scope of the whole runbook.
      obtain ⟨u, r, i, -, hr, hi, hzero⟩ := Store.scopeAt?_concat hs'
      have hpos := h.pos_of_child hm hnumbers hr hi
      rw [hzero] at hpos
      exact absurd hpos (by simp)
  | append_singleton init p ih =>
    intro place' s hs hs'
    obtain ⟨id, k⟩ := p
    obtain ⟨u, r, i, hu, hr, hi, rfl⟩ := Store.scopeAt?_concat hs
    rcases List.eq_nil_or_concat' place' with rfl | ⟨init', ⟨id', k'⟩, rfl⟩
    · have hpos := h.pos_of_child hm hnumbers hr hi
      rw [← Option.some.inj hs'] at hpos
      exact absurd hpos (by simp)
    · obtain ⟨u', r', i', hu', hr', hi', heq⟩ := Store.scopeAt?_concat hs'
      -- The scope was opened for one iteration only.
      have hsame := eq_of_child? (hnumbers ▸ List.nodup_range') (h.began hm hr hi)
        (h.began hm hr' hi') rfl (congrArg some heq)
      obtain ⟨rfl, hchange⟩ := Occurrence.changed.inj hsame
      obtain ⟨rfl, rfl, -⟩ := Change.startIteration.inj hchange
      rw [ih hu hu']

end

/-- In a first run iterations take the scopes after the one of the whole runbook, in order. -/
theorem numbers_start (x : Execution) (seed : Dict String Value) (events : List Event) :
    ∃ count, (x.start (.scheduled seed events)).2.course.filterMap Occurrence.child? =
      List.range' 1 count := by
  obtain ⟨happened, hstarted, hcourse, -⟩ := start_scheduled x seed events
  obtain ⟨m₁, hexec, -⟩ := hstarted.exec
  have hclosing : ∀ outcome : Outcome,
      (Occurrence.changed 0 outcome.closing).child? = none := by
    rintro (f | ⟨⟩) <;> rfl
  rw [hcourse]
  exact ⟨_, (hexec.numbers hstarted.ready).andChildless (.singleton (hclosing _) rfl)⟩

end Runbook
