import Mathlib.Logic.Relation
import Runbook.Proofs.Run.Scopes
import Runbook.Proofs.Run.Stories

namespace Runbook

/-!
# Running a graph — where a run gets to

`Exec` says how a run ends.  To speak of what is only a part of it, such as the body of a loop in
its third iteration, this file follows a run from one task to the next.

* `Task.run`, `Exec.on_eq` — the run of a task, and that executions are nothing else;
* `Stage`, `Enters` — a task that is about to run, and the tasks that are run as parts of it;
* `Reaches` — all tasks that a run comes to.

What a stage leads to is said by the run itself and not by `Exec`.
-/

open Run

variable {x : Execution} {frame : Frame} {m m' : Machine} {happened : List Occurrence}

/-! ### Executions are runs -/

/-- Running a task. -/
def Task.run (x : Execution) (frame : Frame) : Task → Run Unit
  | .nodes list => runNodes x frame list
  | .node n => runNode x frame n
  | .rounds id itemAs body index values =>
    iterateAll x frame id itemAs (fun inner => runNodes x inner body) index values
  | .round id itemAs body index value =>
    iterate x frame id itemAs (fun inner => runNodes x inner body) index value

/-- A call that goes well answers the result. -/
theorem Called.on_ok {id : String} {c : ActionCall} {result : ActionResult}
    {heard : List Occurrence} (h : Called x frame id c m (.ok result) heard m') :
    (call x frame id c).on m = (.ok result, m') := by
  rw [on_call, h.answered, h.eq]

/-- A call that goes wrong puts the error on record and fails the action. -/
theorem Called.on_error {id : String} {c : ActionCall} {e : ActionError}
    {heard : List Occurrence} (h : Called x frame id c m (.error e) heard m') :
    (call x frame id c).on m =
      (.error (.actionFailed id e), m'.change frame.stack.top (.failAction id e.message)) := by
  rw [on_call, h.answered, h.eq]

/-- An action that acts as `Acts` says is run by `Run.runAction`. -/
theorem Acts.on_eq {id urn : String} {params exports : Dict String String} {outcome : Outcome}
    (h : Acts x frame id urn params exports m happened outcome m') :
    (runAction x frame id urn params exports).on m = (outcome, m') := by
  unfold runAction
  rw [on_bind, on_record]
  dsimp only
  rw [on_bind, on_parameters]
  cases h with
  | starved hw => rw [hw.eq]
  | failed hw hcall =>
    rw [hw.eq]
    dsimp only
    rw [on_bind, on_record]
    dsimp only
    rw [on_bind, hcall.on_error]
    rfl
  | done hw hcall =>
    rw [hw.eq]
    dsimp only
    rw [on_bind, on_record]
    dsimp only
    rw [on_bind, hcall.on_ok]
    rfl

/-- A choice that is decided as `Decides` says is decided by `Run.decideOutcome`. -/
theorem Decides.on_eq {id condition : String} {answer : Except Failure Bool}
    (h : Decides x frame id condition m happened answer m') :
    (decideOutcome x frame id condition).on m = (answer, m') := by
  unfold decideOutcome
  rw [on_bind, on_record]
  dsimp only
  cases h with
  | malformed hparse =>
    rw [hparse]
    rfl
  | starved hparse hw =>
    rw [hparse]
    dsimp only
    rw [on_bind, on_bindAll, hw.eq]
  | undecidable hparse hw hvalue | decided hparse hw hvalue =>
    rw [hparse]
    dsimp only
    rw [on_bind, on_bindAll, hw.eq]
    dsimp only
    rw [Condition.auditEach_of_parse hparse, hvalue]
    rfl

/-- Waiting for a list of one token is waiting for the token. -/
theorem Machine.awaitAll_singleton (m : Machine) (stack : Stack) (site : Site) (limit : Nat)
    (token : String) :
    m.awaitAll stack site limit [token] =
      ((m.await stack site limit token).1.map fun v => [v],
        (m.await stack site limit token).2) := by
  rw [awaitAll]
  generalize m.await stack site limit token = waited
  obtain ⟨answer, m₁⟩ := waited
  cases answer <;> rfl

namespace Awaited

variable {id token : String} {limit : Nat}

/-- A wait for one token that fails. -/
theorem await_error {e : WaitError} (h : Awaited frame id limit [token] m happened (.error e) m') :
    m.await frame.stack ⟨id, frame.path⟩ limit token = (.error e, m') := by
  have heq := h.eq
  rw [Machine.awaitAll_singleton] at heq
  generalize m.await frame.stack ⟨id, frame.path⟩ limit token = waited at heq ⊢
  obtain ⟨answer, m₁⟩ := waited
  cases answer <;> cases heq
  rfl

/-- A wait for one token that ends well. -/
theorem await_ok {v : Value} (h : Awaited frame id limit [token] m happened (.ok [v]) m') :
    m.await frame.stack ⟨id, frame.path⟩ limit token = (.ok v, m') := by
  have heq := h.eq
  rw [Machine.awaitAll_singleton] at heq
  generalize m.await frame.stack ⟨id, frame.path⟩ limit token = waited at heq ⊢
  obtain ⟨answer, m₁⟩ := waited
  cases answer <;> cases heq
  rfl

end Awaited

/-- How nodes run on a tree that is not cancelled: the first one, and then the others. -/
theorem on_runNodes_cons (n : Node) (rest : List Node)
    (hc : frame.stack.isCancelled m.store = false) :
    (runNodes x frame (n :: rest)).on m =
      (runNode x frame n >>= fun _ => runNodes x frame rest).on m := by
  rw [runNodes, on_bind, on_isCancelled]
  dsimp only
  rw [hc, if_neg (by simp)]

/-- How a loop runs once its elements are there. -/
theorem Awaited.on_runLoop {id elements : String} {m₁ : Machine} {v : Value}
    (hw : Awaited frame id x.options.loopLimit [elements]
      (m.change frame.top (.startLoop id true)) happened (.ok [v]) m₁)
    (itemAs : Option String) (body : Frame → Run Unit) :
    (runLoop x frame id elements itemAs body).on m =
      (iterateAll x frame id itemAs body 1 v.expand >>= fun _ =>
        record frame (.finishLoop id)).on m₁ := by
  rw [runLoop, on_bind, on_record]
  dsimp only
  rw [on_bind, on_await, hw.await_ok]

/-- How an iteration runs that is not refused. -/
theorem on_iterate {id : String} {itemAs : Option String} {body : List Node} {index : Nat}
    {v : Value} (hc : frame.stack.isCancelled m.store = false) :
    (iterate x frame id itemAs (fun inner => runNodes x inner body) index v).on m =
      ((match (runNodes x (frame.inner id index m.store.size) body).on
          (m.openIteration frame id itemAs index v) with
        | (.ok (), _) => record (frame.inner id index m.store.size) .close
        | (.error .cancelled, _) => failLoop frame id .cancelled
        | (.error f, _) => do
          record (frame.inner id index m.store.size) (.closeWithError f.message)
          match x.options.onFailure with
          | .proceed => pure ()
          | .halt => failLoop frame id (.iterationFailed id index f)) : Run Unit).on
        ((runNodes x (frame.inner id index m.store.size) body).on
          (m.openIteration frame id itemAs index v)).2 := by
  unfold iterate
  rw [on_bind, on_isCancelled]
  dsimp only
  rw [hc, if_neg (by simp), on_bind, on_openIteration]
  dsimp only
  rw [on_bind, on_attempt]
  dsimp only
  generalize (runNodes x (frame.inner id index m.store.size) body).on _ = ended
  obtain ⟨outcome, m₁⟩ := ended
  rcases outcome with f | ⟨⟩
  · cases f <;> rfl
  · rfl

/-- How an iteration runs whose body fails, but is not cancelled. -/
theorem on_iterate_failed {id : String} {itemAs : Option String} {body : List Node} {index : Nat}
    {v : Value} {f : Failure} {m₁ : Machine} (hc : frame.stack.isCancelled m.store = false)
    (hbody : (runNodes x (frame.inner id index m.store.size) body).on
      (m.openIteration frame id itemAs index v) = (.error f, m₁)) (hf : f ≠ .cancelled) :
    (iterate x frame id itemAs (fun inner => runNodes x inner body) index v).on m =
      (match x.options.onFailure with
        | .proceed => (.ok (), m₁.change m.store.size (.closeWithError f.message))
        | .halt => (.error (.iterationFailed id index f),
            (m₁.change m.store.size (.closeWithError f.message)).change frame.top
              (.failLoop id (Failure.iterationFailed id index f).recordText))) := by
  rw [on_iterate hc, hbody]
  cases f with
  | cancelled => exact absurd rfl hf
  | _ =>
    dsimp only
    rw [on_bind, on_record]
    cases x.options.onFailure <;> rfl

/-- **Executions are runs.** An execution tells how running its task ends. -/
theorem Exec.on_eq {task : Task} {outcome : Outcome}
    (h : Exec x frame task m happened outcome m') : (task.run x frame).on m = (outcome, m') := by
  induction h with
  | nil | noRounds => rfl
  | stopped hc =>
    rw [Task.run, runNodes, on_bind, on_isCancelled]
    dsimp only
    rw [hc]
    rfl
  | failed hc _ ih =>
    rw [Task.run] at ih
    rw [Task.run, on_runNodes_cons _ _ hc, on_bind, ih]
  | cons hc _ _ ih ih' =>
    rw [Task.run] at ih
    rw [Task.run, on_runNodes_cons _ _ hc, on_bind, ih]
    exact ih'
  | action h =>
    rw [Task.run, runNode]
    exact h.on_eq
  | undecided h => rw [Task.run, runNode, on_bind, h.on_eq]
  | @decided _ _ _ _ _ _ _ _ _ _ b _ h _ ih =>
    rw [Task.run, runNode, on_bind, h.on_eq]
    cases b <;> exact ih
  | starved hw =>
    rw [Task.run, runNode, runLoop, on_bind, on_record]
    dsimp only
    rw [on_bind, on_await, hw.await_error]
  | broken hw _ ih =>
    rw [Task.run] at ih
    rw [Task.run, runNode, hw.on_runLoop, on_bind, ih]
  | finished hw _ ih =>
    rw [Task.run] at ih
    rw [Task.run, runNode, hw.on_runLoop, on_bind, ih]
    rfl
  | lastRound _ ih =>
    rw [Task.run] at ih
    rw [Task.run, iterateAll, on_bind, ih]
  | nextRound _ _ ih ih' =>
    rw [Task.run] at ih
    rw [Task.run, iterateAll, on_bind, ih]
    exact ih'
  | refused hc =>
    rw [Task.run, iterate, on_bind, on_isCancelled]
    dsimp only
    rw [hc]
    rfl
  | completed hc _ ih | interrupted hc _ ih =>
    rw [Task.run] at ih
    rw [Task.run, on_iterate hc, ih]
    rfl
  | passed hc _ hf hpolicy ih | halted hc _ hf hpolicy ih =>
    rw [Task.run, on_iterate_failed hc ih hf, hpolicy]

/-! ### Stages -/

/-- A task that is about to run. -/
structure Stage where
  frame : Frame
  task : Task
  machine : Machine

/-- How a loop that starts waits for its elements. -/
def Execution.awaitElements (x : Execution) (frame : Frame) (id elements : String) (m : Machine) :
    Except WaitError Value × Machine :=
  (m.change frame.top (.startLoop id true)).await frame.stack ⟨id, frame.path⟩ x.options.loopLimit
    elements

/-- A stage leads to another one, whose task is run as a part of its own. -/
inductive Enters (x : Execution) : Stage → Stage → Prop
  /-- The first of some nodes. -/
  | head {frame : Frame} {n : Node} {rest : List Node} {m : Machine} :
      frame.stack.isCancelled m.store = false →
      Enters x ⟨frame, .nodes (n :: rest), m⟩ ⟨frame, .node n, m⟩
  /-- The nodes after the first, once it has gone well. -/
  | tail {frame : Frame} {n : Node} {rest : List Node} {m m₁ : Machine} :
      frame.stack.isCancelled m.store = false →
      (runNode x frame n).on m = (.ok (), m₁) →
      Enters x ⟨frame, .nodes (n :: rest), m⟩ ⟨frame, .nodes rest, m₁⟩
  | branch {frame : Frame} {id condition : String} {yes no : List Node} {m m₁ : Machine}
      {b : Bool} :
      (decideOutcome x frame id condition).on m = (.ok b, m₁) →
      Enters x ⟨frame, .node (.choice id condition yes no), m⟩
        ⟨frame, .nodes (if b then yes else no), m₁⟩
  /-- All iterations of a loop, once its elements are there. -/
  | rounds {frame : Frame} {id elements : String} {itemAs : Option String} {body : List Node}
      {m m₁ : Machine} {v : Value} :
      x.awaitElements frame id elements m = (.ok v, m₁) →
      Enters x ⟨frame, .node (.loop id elements itemAs body), m⟩
        ⟨frame, .rounds id itemAs body 1 v.expand, m₁⟩
  | round {frame : Frame} {id : String} {itemAs : Option String} {body : List Node} {index : Nat}
      {v : Value} {values : List Value} {m : Machine} :
      Enters x ⟨frame, .rounds id itemAs body index (v :: values), m⟩
        ⟨frame, .round id itemAs body index v, m⟩
  /-- The iterations after the first, unless it has ended the loop. -/
  | nextRound {frame : Frame} {id : String} {itemAs : Option String} {body : List Node}
      {index : Nat} {v : Value} {values : List Value} {m m₁ : Machine} :
      (iterate x frame id itemAs (fun inner => runNodes x inner body) index v).on m =
        (.ok (), m₁) →
      Enters x ⟨frame, .rounds id itemAs body index (v :: values), m⟩
        ⟨frame, .rounds id itemAs body (index + 1) values, m₁⟩
  /-- The body of a loop, in a new scope. -/
  | body {frame : Frame} {id : String} {itemAs : Option String} {body : List Node} {index : Nat}
      {v : Value} {m : Machine} :
      frame.stack.isCancelled m.store = false →
      Enters x ⟨frame, .round id itemAs body index v, m⟩
        ⟨frame.inner id index m.store.size, .nodes body, m.openIteration frame id itemAs index v⟩

/-- All that a stage leads to. -/
abbrev Reaches (x : Execution) : Stage → Stage → Prop := Relation.ReflTransGen (Enters x)

/-- The stage that a whole run begins with. -/
def Execution.opening (x : Execution) (m : Machine) : Stage :=
  ⟨m.outermost, .nodes x.graph.nodes, m⟩

/-! ### Nodes that a run comes to -/

/-- The change that makes the record of a node anew. -/
def Node.start : Node → Change
  | .action id .. => .startAction id
  | .choice id .. => .startChoice id
  | .loop id .. => .startLoop id true

/-- In a stretch from `first` on, a node that makes its record anew by the change `c` is run in the
    scope `s`. -/
inductive Visits (x : Execution) (first : Stage) (happened : List Occurrence) (outcome : Outcome)
    (m' : Machine) (s : ScopeId) (c : Change) : Prop
  | intro {frame : Frame} {n : Node} {m₀ m₁ : Machine} {before during after : List Occurrence}
      {ended : Outcome}
      (top : frame.top = s) (begins : n.start = c)
      (reaches : Reaches x first ⟨frame, .node n, m₀⟩)
      (ready : m₀.Ready frame)
      (exec : Exec x frame (.node n) m₀ during ended m₁)
      (split : happened = before ++ during ++ after)
      (earlier : Extends x.backend first.machine before m₀)
      (later : Extends x.backend m₁ after m')
      (leaves : ∀ t, Opened m₀ m₁ t → LeavesOpen t after)
      (cancels : ended = .error .cancelled → outcome = .error .cancelled) :
      Visits x first happened outcome m' s c

namespace Visits

variable {first next : Stage} {outcome : Outcome} {s : ScopeId} {c : Change}

/-- A node that is run itself. -/
theorem here {n : Node} (hm : m.Ready frame)
    (h : Exec x frame (.node n) m happened outcome m') :
    Visits x ⟨frame, .node n, m⟩ happened outcome m' frame.top n.start := by
  have hsplit : happened = [] ++ happened ++ [] := by simp
  exact .intro rfl rfl .refl hm h hsplit (.refl _) (.refl _)
    (fun _ _ o ho => absurd ho List.not_mem_nil) fun hended => hended

/-- A stretch before. -/
theorem prepend {before : List Occurrence} (henters : Enters x first next)
    (hext : Extends x.backend first.machine before next.machine)
    (h : Visits x next happened outcome m' s c) :
    Visits x first (before ++ happened) outcome m' s c := by
  obtain ⟨top, begins, reaches, ready, exec, rfl, earlier, later, leaves, cancels⟩ := h
  exact .intro top begins (.head henters reaches) ready exec (by simp only [List.append_assoc])
    (hext.trans earlier) later leaves cancels

/-- A stretch after. -/
theorem append {after : List Occurrence} {outcome' : Outcome} {m'' : Machine}
    (h : Visits x first happened outcome m' s c) (hext : Extends x.backend m' after m'')
    (hleaves : ∀ t, Opened first.machine m' t → LeavesOpen t after)
    (hcancels : outcome = .error .cancelled → outcome' = .error .cancelled) :
    Visits x first (happened ++ after) outcome' m'' s c := by
  obtain ⟨top, begins, reaches, ready, exec, rfl, earlier, later, leaves, cancels⟩ := h
  refine .intro top begins reaches ready exec (by simp only [List.append_assoc]) earlier
    (later.trans hext) (fun t ht => (leaves t ht).append (hleaves t ?_))
    fun hended => hcancels (cancels hended)
  exact ht.weaken earlier.size_le later.size_le

/-- An execution after, which leaves alone the scopes that are there. -/
theorem andThen {after : List Occurrence} {frame' : Frame} {task : Task} {outcome' : Outcome}
    {m'' : Machine} (h : Visits x first happened (.ok ()) m' s c)
    (h' : Exec x frame' task m' after outcome' m'') (hready : m'.Ready frame') :
    Visits x first (happened ++ after) outcome' m'' s c :=
  h.append (h'.extends hready)
    (fun _ ht => (h'.stays hready).leavesOpen fun hopened => Nat.not_le_of_lt ht.2 hopened.1) nofun

end Visits

/-- A story makes the record of its node anew, and no other. -/
theorem Story.eq_start {s : ScopeId} {n : Node} {story : List Occurrence} {c : Change}
    (h : Story s n story) (hmem : .changed s c ∈ story) (hc : c.starts) : c = n.start := by
  have hloop : ∀ {id : String} {its : List Iteration} {d : Change}, d.starts = false →
      .changed s c ∈ [.changed s (.startLoop id true)] ++ iterationsOf s id 1 its ++
        [.changed s d] → c = .startLoop id true := by
    intro id its d hd hmem
    simp only [List.mem_append, List.mem_singleton, Occurrence.changed.injEq, true_and] at hmem
    rcases hmem with (rfl | hmem) | rfl
    · rfl
    · obtain ⟨k, i, -, heq⟩ := eq_of_mem_iterationsOf hmem
      rw [(Occurrence.changed.inj heq).2] at hc
      cases hc
    · rw [hc] at hd
      cases hd
  cases h with
  | broken its f => exact hloop rfl hmem
  | finished its => exact hloop rfl hmem
  | _ =>
    simp only [List.mem_cons, List.not_mem_nil, or_false, Occurrence.changed.injEq, true_and,
      reduceCtorEq, false_or] at hmem
    rcases hmem with rfl | rfl | rfl <;> first | rfl | cases hc

/-- What happens in the wait of a node, after a change, is no other change. -/
theorem Awaited.eq_of_mem {c d : Change} {id : String} {limit : Nat} {tokens : List String}
    {answer : Except WaitError (List Value)} {s : ScopeId} (hm : m.Ready frame)
    (h : Awaited frame id limit tokens (m.change frame.top d) happened answer m')
    (ho : .changed s c ∈ [.changed frame.top d] ++ happened) : frame.top = s ∧ d = c := by
  rcases List.mem_append.1 ho with ho | ho
  · obtain ⟨rfl, rfl⟩ := Occurrence.changed.inj (List.mem_singleton.1 ho)
    exact ⟨rfl, rfl⟩
  · exact absurd (h.foreign_after hm _ ho) fun hforeign => hforeign

/-- What tells of one node of one scope makes only the record of this node anew. -/
theorem Tells.eq_start {top s : ScopeId} {n : Node} {c : Change}
    (h : Tells (· = top) [n] happened) (ho : .changed s c ∈ happened) (hc : c.starts) :
    top = s ∧ n.start = c := by
  obtain ⟨id, hid⟩ := Change.node?_of_starts hc
  have hmem : .changed s c ∈ aboutNode s id happened := by
    refine mem_aboutNode.2 ⟨ho, ?_⟩
    rw [Occurrence.about?, hid]
    rfl
  obtain ⟨hs, n', hn', -, hstory⟩ := h s id (List.ne_nil_of_mem hmem)
  rw [List.mem_singleton.1 hn'] at hstory
  exact ⟨hs.symm, (hstory.eq_start hmem hc).symm⟩

/-- A change that makes no record anew is not one that does. -/
theorem not_mem_changed {s t : ScopeId} {c d : Change} (hc : c.starts) (hd : d.starts = false) :
    .changed s c ∉ [Occurrence.changed t d] := by
  intro hmem
  rw [← (Occurrence.changed.inj (List.mem_singleton.1 hmem)).2, hc] at hd
  cases hd

/-- Opening an iteration starts the iteration and no node. -/
theorem not_mem_openingOf {node : String} {itemAs : Option String} {index : Nat} {v : Value}
    {scope s : ScopeId} {c : Change} (hc : c.starts) :
    .changed s c ∉ openingOf frame node itemAs index v scope := by
  intro hmem
  rcases List.mem_append.1 hmem with hmem | hmem
  · rcases List.mem_append.1 hmem with hmem | hmem
    · cases List.mem_singleton.1 hmem
    · exact not_mem_changed hc rfl hmem
  · obtain ⟨name, -, heq⟩ := List.mem_map.1 hmem
    obtain ⟨rfl, rfl⟩ := Occurrence.changed.inj heq
    cases hc

/-- What is made anew in an iteration is made anew in its body.  After the body no record is made
    anew, and no scope is closed but the one of the iteration. -/
theorem Visits.round {node : String} {itemAs : Option String} {body : List Node} {index : Nat}
    {v : Value} {m₁ : Machine} {closing : List Occurrence} {outcome outcome' : Outcome}
    {s : ScopeId} {c : Change} (hm : m.Ready frame)
    (hcancelled : frame.stack.isCancelled m.store = false)
    (hbody : .changed s c ∈ happened → Visits x ⟨frame.inner node index m.store.size, .nodes body,
      m.openIteration frame node itemAs index v⟩ happened outcome m₁ s c)
    (hext : Extends x.backend m₁ closing m')
    (hclosing : ∀ o ∈ closing, ∃ t d, o = .changed t d ∧ d.starts = false ∧
      (d.closes → t = m.store.size))
    (hcancels : outcome = .error .cancelled → outcome' = .error .cancelled)
    (ho : .changed s c ∈ openingOf frame node itemAs index v m.store.size ++ happened ++ closing)
    (hc : c.starts) :
    Visits x ⟨frame, .round node itemAs body index v, m⟩
      (openingOf frame node itemAs index v m.store.size ++ happened ++ closing) outcome' m' s
      c := by
  obtain ⟨hopen, -⟩ := extends_openIteration x.backend hm node itemAs index v
  have hmem : .changed s c ∈ happened := by
    rcases List.mem_append.1 ho with ho | ho
    · exact (List.mem_append.1 ho).resolve_left (not_mem_openingOf hc)
    · obtain ⟨t, d, heq, hd, -⟩ := hclosing _ ho
      exact absurd (List.mem_singleton.2 heq) (not_mem_changed hc hd)
  -- The scope of the iteration is older than what is opened in the body.
  have hleaves : ∀ t, Opened (m.openIteration frame node itemAs index v) m₁ t →
      LeavesOpen t closing := by
    intro t ht o ho'
    have hlt : m.store.size < t := by
      rw [← Nat.succ_le_iff, Nat.succ_eq_add_one, ← size_openIteration m frame node itemAs index v]
      exact ht.1
    obtain ⟨u, d, rfl, -, hcloses⟩ := hclosing o ho'
    refine LeavesOpen.change (fun heq => Bool.eq_false_iff.2 fun hd => ?_) _
      (List.mem_singleton_self _)
    exact Nat.ne_of_gt hlt (heq ▸ hcloses hd)
  rw [List.append_assoc]
  exact ((hbody hmem).append hext hleaves hcancels).prepend (.body hcancelled) hopen

/-- An iteration after whose body there is one more change, which makes no record anew. -/
theorem Exec.visits_round {node : String} {itemAs : Option String} {body : List Node} {index : Nat}
    {v : Value} {m₁ : Machine} {outcome outcome' : Outcome} {s t : ScopeId} {c d : Change}
    (hm : m.Ready frame) (hcancelled : frame.stack.isCancelled m.store = false)
    (h : Exec x (frame.inner node index m.store.size) (.nodes body)
      (m.openIteration frame node itemAs index v) happened outcome m₁)
    (hbody : (m.openIteration frame node itemAs index v).Ready
        (frame.inner node index m.store.size) → .changed s c ∈ happened →
      Visits x ⟨frame.inner node index m.store.size, .nodes body,
        m.openIteration frame node itemAs index v⟩ happened outcome m₁ s c)
    (ht : t ≤ m.store.size) (hd : d.starts = false) (hcloses : d.closes → t = m.store.size)
    (hcancels : outcome = .error .cancelled → outcome' = .error .cancelled)
    (ho : .changed s c ∈ openingOf frame node itemAs index v m.store.size ++ happened ++
      [.changed t d]) (hc : c.starts) :
    Visits x ⟨frame, .round node itemAs body index v, m⟩
      (openingOf frame node itemAs index v m.store.size ++ happened ++ [.changed t d]) outcome'
      (m₁.change t d) s c := by
  obtain ⟨-, hready⟩ := extends_openIteration x.backend hm node itemAs index v
  have hlt : t < m₁.store.size :=
    Nat.lt_of_le_of_lt ht ((h.extends hready).ready hready).top
  exact .round hm hcancelled (hbody hready) (.change hlt d)
    (fun o ho' => ⟨_, _, List.mem_singleton.1 ho', hd, hcloses⟩) hcancels ho hc

/-- An iteration that fails its loop: its scope is closed, and then the loop fails. -/
theorem Exec.visits_halted {node : String} {itemAs : Option String} {body : List Node}
    {index : Nat} {v : Value} {m₁ : Machine} {f : Failure} {s : ScopeId} {c : Change}
    (hm : m.Ready frame) (hcancelled : frame.stack.isCancelled m.store = false)
    (h : Exec x (frame.inner node index m.store.size) (.nodes body)
      (m.openIteration frame node itemAs index v) happened (.error f) m₁)
    (hbody : (m.openIteration frame node itemAs index v).Ready
        (frame.inner node index m.store.size) → .changed s c ∈ happened →
      Visits x ⟨frame.inner node index m.store.size, .nodes body,
        m.openIteration frame node itemAs index v⟩ happened (.error f) m₁ s c)
    (hf : f ≠ .cancelled)
    (ho : .changed s c ∈ openingOf frame node itemAs index v m.store.size ++ happened ++
      [.changed m.store.size (.closeWithError f.message)] ++
      [.changed frame.top (.failLoop node (Failure.iterationFailed node index f).recordText)])
    (hc : c.starts) :
    Visits x ⟨frame, .round node itemAs body index v, m⟩
      (openingOf frame node itemAs index v m.store.size ++ happened ++
        [.changed m.store.size (.closeWithError f.message)] ++
        [.changed frame.top (.failLoop node (Failure.iterationFailed node index f).recordText)])
      (.error (.iterationFailed node index f))
      ((m₁.change m.store.size (.closeWithError f.message)).change frame.top
        (.failLoop node (Failure.iterationFailed node index f).recordText)) s c := by
  obtain ⟨hopen, hready⟩ := extends_openIteration x.backend hm node itemAs index v
  have hext := h.extends hready
  have hclose : Extends x.backend m₁ _ _ :=
    .change (hext.ready hready).top (.closeWithError f.message)
  have htop := (((hopen.trans hext).trans hclose).ready hm).top
  rw [List.append_assoc] at ho ⊢
  refine .round hm hcancelled (hbody hready) (hclose.trans (.change htop _)) (fun o ho' => ?_)
    (fun heq => absurd (Except.error.inj heq) hf) ho hc
  rcases List.mem_append.1 ho' with ho' | ho'
  · exact ⟨_, _, List.mem_singleton.1 ho', rfl, fun _ => rfl⟩
  · exact ⟨_, _, List.mem_singleton.1 ho', rfl, nofun⟩

/-- **Visits.** Where the record of a node is made anew, the node is run. -/
theorem Exec.visits {task : Task} {outcome : Outcome} {s : ScopeId} {c : Change}
    (h : Exec x frame task m happened outcome m') (hm : m.Ready frame)
    (ho : .changed s c ∈ happened) (hc : c.starts) :
    Visits x ⟨frame, task, m⟩ happened outcome m' s c := by
  induction h with
  | nil | stopped | noRounds => exact absurd ho List.not_mem_nil
  | failed hcancelled _ ih => exact (ih hm ho).prepend (.head hcancelled) (.refl _)
  | cons hcancelled h h' ih ih' =>
    have hready := (h.extends hm).ready hm
    -- The record is made by the first node, or by one of the others.
    rcases List.mem_append.1 ho with ho | ho
    · exact ((ih hm ho).prepend (.head hcancelled) (.refl _)).andThen h' hready
    · exact (ih' hready ho).prepend (.tail hcancelled h.on_eq) (h.extends hm)
  | action h =>
    obtain ⟨rfl, rfl⟩ := (h.tells hm).eq_start ho hc
    exact .here hm (.action h)
  | @undecided _ _ _ yes no _ _ _ _ h =>
    obtain ⟨rfl, hstart⟩ := (h.tells yes no hm).eq_start ho hc
    exact hstart ▸ .here hm (.undecided h)
  | @decided _ _ _ yes no _ _ _ _ _ b _ h h' ih =>
    have hext := h.extends hm
    rcases List.mem_append.1 ho with ho | ho
    · obtain ⟨rfl, hstart⟩ := (h.tells yes no hm).eq_start ho hc
      exact hstart ▸ .here hm (.decided h h')
    · exact (ih (hext.ready hm) ho).prepend (.branch h.on_eq) hext
  | starved hw =>
    obtain ⟨rfl, rfl⟩ := hw.eq_of_mem hm
      ((List.mem_append.1 ho).resolve_right (not_mem_changed hc rfl))
    exact .here hm (.starved hw)
  -- The start of the loop is the record that it makes; all others are made in its rounds.
  | broken hw h ih =>
    have hext := hw.extends_after x.backend hm
    rcases List.mem_append.1 ho with ho | ho
    · obtain ⟨rfl, rfl⟩ := hw.eq_of_mem hm ho
      exact .here hm (.broken hw h)
    · exact (ih (hext.ready hm) ho).prepend (.rounds hw.await_ok) hext
  | finished hw h ih =>
    have hext := hw.extends_after x.backend hm
    have hready := hext.ready hm
    -- The end of a loop makes no record anew.
    rcases List.mem_append.1 ((List.mem_append.1 ho).resolve_right (not_mem_changed hc rfl))
      with ho | ho
    · obtain ⟨rfl, rfl⟩ := hw.eq_of_mem hm ho
      exact .here hm (.finished hw h)
    · exact ((ih hready ho).prepend (.rounds hw.await_ok) hext).append
        (.change ((h.extends hready).ready hready).top _)
        (fun t ht => .change fun _ => rfl) fun hok => hok
  | lastRound h ih => exact (ih hm ho).prepend .round (.refl _)
  | nextRound h h' ih ih' =>
    have hready := (h.extends hm).ready hm
    rcases List.mem_append.1 ho with ho | ho
    · exact ((ih hm ho).prepend .round (.refl _)).andThen h' hready
    · exact (ih' hready ho).prepend (.nextRound h.on_eq) (h.extends hm)
  | refused => exact absurd ho (not_mem_changed hc rfl)
  | completed hcancelled h ih =>
    exact h.visits_round hm hcancelled ih (Nat.le_refl _) rfl (fun _ => rfl) nofun ho hc
  | passed hcancelled h hf _ ih =>
    exact h.visits_round hm hcancelled ih (Nat.le_refl _) rfl (fun _ => rfl)
      (fun heq => absurd (Except.error.inj heq) hf) ho hc
  | halted hcancelled h hf _ ih => exact h.visits_halted hm hcancelled ih hf ho hc
  | interrupted hcancelled h ih =>
    exact h.visits_round hm hcancelled ih (Nat.le_of_lt hm.top) rfl nofun (fun _ => rfl) ho hc

end Runbook
