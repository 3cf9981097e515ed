import Runbook.Proofs.Run.Exec

namespace Runbook

/-!
# Running a graph — runs are executions

Whatever is run, there is an execution that ends as the run does.  What is proved of all executions
by induction is a law of all runs.

* `Runs` — running a task is an execution of it;
* `runs_runNodes` — running nodes is an execution, by recursion over the nodes;
* `Started` — whole runs as executions;
* `start_scheduled` — the first run, with its course and a sound machine at its end.
-/

variable {x : Execution} {frame : Frame} {m m' : Machine} {happened : List Occurrence}

/-! ### Running is an execution -/

open Run

/-- Every run of an action has a stretch that `Acts` describes. -/
theorem acts_runAction (x : Execution) (hm : m.Ready frame) (id urn : String)
    (params exports : Dict String String) :
    ∃ happened, Acts x frame id urn params exports m happened
      ((runAction x frame id urn params exports).on m).1
      ((runAction x frame id urn params exports).on m).2 := by
  have hstart : Extends x.backend m _ _ := .change hm.top (.startAction id)
  unfold runAction
  rw [on_bind, on_record]
  dsimp only
  rw [on_bind, on_parameters]
  -- The derivation is found on the way: it is decided by how the waiting ends, then by the answer.
  generalize hw : (m.change frame.stack.top (.startAction id)).awaitAll frame.stack
    ⟨id, frame.path⟩ x.options.actionLimit (referencesOf params.entries) = waited
  obtain ⟨answer, m₁⟩ := waited
  obtain ⟨happened, hwait⟩ := Awaited.intro (hstart.ready hm).root hw
  cases answer with
  | error e => exact ⟨_, .starved hwait⟩
  | ok values =>
    dsimp only
    rw [on_bind, on_record]
    dsimp only
    rw [on_bind, on_call]
    have hinputs := (hwait.extends_after x.backend hm).andChange hm
      (.recordParams id (inputsOf params values) true)
    obtain ⟨heard, hcall⟩ := Called.intro x (hinputs.ready hm).root frame id
      ⟨urn, inputsOf params values⟩
    generalize hanswer : x.backend _ _ = answer at hcall ⊢
    cases answer with
    | error e => exact ⟨_, .failed hwait hcall⟩
    | ok result => exact ⟨_, .done hwait hcall⟩

/-- Every decision of a choice has a stretch that `Decides` describes. -/
theorem decides_decideOutcome (x : Execution) (hm : m.Ready frame) (id condition : String) :
    ∃ happened, Decides x frame id condition m happened
      ((decideOutcome x frame id condition).on m).1
      ((decideOutcome x frame id condition).on m).2 := by
  have hstart : Extends x.backend m _ _ := .change hm.top (.startChoice id)
  unfold decideOutcome
  rw [on_bind, on_record]
  cases hparse : Condition.parse condition with
  | error e => exact ⟨_, .malformed hparse⟩
  | ok c =>
    dsimp only
    rw [on_bind, on_bindAll]
    generalize hw : (m.change frame.stack.top (.startChoice id)).awaitAll frame.stack
      ⟨id, frame.path⟩ x.options.conditionLimit c.comparison.references = waited
    obtain ⟨answer, m₁⟩ := waited
    obtain ⟨happened, hwait⟩ := Awaited.intro (hstart.ready hm).root hw
    cases answer with
    | error e => exact ⟨_, .starved hparse hwait⟩
    | ok values =>
      dsimp only
      rw [Condition.auditEach_of_parse hparse]
      cases hvalue : (c.bindEach c.comparison.references values).evaluate with
      | error e => exact ⟨_, .undecidable hparse hwait hvalue⟩
      | ok b => exact ⟨_, .decided hparse hwait hvalue⟩

/-- `Run.openIteration` answers the inner frame and does `Machine.openIteration`. -/
theorem on_openIteration (frame : Frame) (id : String) (itemAs : Option String) (index : Nat)
    (value : Value) (m : Machine) :
    (openIteration frame id itemAs index value).on m =
      (.ok (frame.inner id index m.store.size), m.openIteration frame id itemAs index value) := by
  cases itemAs <;> rfl

/-- Running a task is an execution. -/
def Runs (x : Execution) (frame : Frame) (task : Task) (r : Run Unit) : Prop :=
  ∀ m : Machine, m.Ready frame → ∃ happened, Exec x frame task m happened (r.on m).1 (r.on m).2

/-- One iteration, if its body runs as `Exec` says. -/
theorem runs_iterate {body : List Node}
    (hbody : ∀ inner : Frame, Runs x inner (.nodes body) (runNodes x inner body)) (frame : Frame)
    (id : String) (itemAs : Option String) (index : Nat) (value : Value) :
    Runs x frame (.round id itemAs body index value)
      (iterate x frame id itemAs (fun inner => runNodes x inner body) index value) := by
  intro m hm
  unfold iterate
  rw [on_bind, on_isCancelled]
  dsimp only
  cases hc : frame.stack.isCancelled m.store with
  | true => exact ⟨_, .refused hc⟩
  | false =>
    rw [if_neg (by simp), on_bind, on_openIteration]
    dsimp only
    rw [on_bind, on_attempt]
    dsimp only
    obtain ⟨-, hready⟩ := extends_openIteration x.backend hm id itemAs index value
    -- How the body ends decides what becomes of the scope of the iteration.
    obtain ⟨happened, hexec⟩ := hbody _ _ hready
    generalize (runNodes x (frame.inner id index m.store.size) body).on
      (m.openIteration frame id itemAs index value) = ended at *
    obtain ⟨outcome, m₁⟩ := ended
    cases outcome with
    | ok => exact ⟨_, .completed hc hexec⟩
    | error f =>
      cases f with
      | cancelled => exact ⟨_, .interrupted hc hexec⟩
      | _ =>
        dsimp only
        rw [on_bind, on_record]
        cases hpolicy : x.options.onFailure with
        | proceed => exact ⟨_, .passed hc hexec (by simp) hpolicy⟩
        | halt => exact ⟨_, .halted hc hexec (by simp) hpolicy⟩

/-- The iterations that are left, by induction on their values. -/
theorem runs_iterateAll {body : List Node}
    (hbody : ∀ inner : Frame, Runs x inner (.nodes body) (runNodes x inner body)) (frame : Frame)
    (id : String) (itemAs : Option String) (values : List Value) : ∀ index : Nat,
    Runs x frame (.rounds id itemAs body index values)
      (iterateAll x frame id itemAs (fun inner => runNodes x inner body) index values) := by
  induction values with
  | nil => exact fun index m _ => ⟨_, .noRounds⟩
  | cons v rest ih =>
    intro index m hm
    -- The later iterations have higher numbers, so the induction is over all numbers.
    obtain ⟨before, hround⟩ := runs_iterate hbody frame id itemAs index v m hm
    rw [iterateAll, on_bind]
    generalize (iterate x frame id itemAs _ index v).on m = ended at *
    obtain ⟨outcome, m₁⟩ := ended
    cases outcome with
    | error f => exact ⟨_, .lastRound hround⟩
    | ok =>
      obtain ⟨after, hrounds⟩ := ih (index + 1) m₁ ((hround.extends hm).ready hm)
      exact ⟨_, .nextRound hround hrounds⟩

/-- A loop waits for its elements, then iterates. -/
theorem runs_runLoop {body : List Node}
    (hbody : ∀ inner : Frame, Runs x inner (.nodes body) (runNodes x inner body)) (frame : Frame)
    (id elements : String) (itemAs : Option String) :
    Runs x frame (.node (.loop id elements itemAs body))
      (runLoop x frame id elements itemAs fun inner => runNodes x inner body) := by
  intro m hm
  have hstart : Extends x.backend m _ _ := .change hm.top (.startLoop id true)
  unfold runLoop
  rw [on_bind, on_record]
  dsimp only
  rw [on_bind, on_await]
  generalize hw : (m.change frame.stack.top (.startLoop id true)).await frame.stack
    ⟨id, frame.path⟩ x.options.loopLimit elements = waited
  obtain ⟨answer, m₁⟩ := waited
  cases answer with
  | error e =>
    -- Waiting for the elements is waiting for a list of one token.
    have hall : (m.change frame.stack.top (.startLoop id true)).awaitAll frame.stack
        ⟨id, frame.path⟩ x.options.loopLimit [elements] = (.error e, m₁) := by
      rw [Machine.awaitAll, hw]
    obtain ⟨happened, hwait⟩ := Awaited.intro (hstart.ready hm).root hall
    exact ⟨_, .starved hwait⟩
  | ok v =>
    have hall : (m.change frame.stack.top (.startLoop id true)).awaitAll frame.stack
        ⟨id, frame.path⟩ x.options.loopLimit [elements] = (.ok [v], m₁) := by
      rw [Machine.awaitAll, hw]
      rfl
    obtain ⟨happened, hwait⟩ := Awaited.intro (hstart.ready hm).root hall
    dsimp only
    have hbefore := hwait.extends_after x.backend hm
    obtain ⟨after, hrounds⟩ := runs_iterateAll hbody frame id itemAs v.expand 1 m₁
      (hbefore.ready hm)
    rw [on_bind]
    generalize (iterateAll x frame id itemAs _ 1 v.expand).on m₁ = ended at *
    obtain ⟨outcome, m₂⟩ := ended
    cases outcome with
    | error f => exact ⟨_, .broken hwait hrounds⟩
    | ok => exact ⟨_, .finished hwait hrounds⟩

mutual

/-- The cases of `runs_runNodes` by the kind of the node. -/
theorem runs_runNode (x : Execution) :
    ∀ (n : Node) (frame : Frame), Runs x frame (.node n) (runNode x frame n)
  | .action id urn params exports, frame => by
    intro m hm
    rw [runNode]
    obtain ⟨happened, h⟩ := acts_runAction x hm id urn params exports
    exact ⟨_, .action h⟩
  | .choice id condition yes no, frame => by
    intro m hm
    obtain ⟨before, hdecides⟩ := decides_decideOutcome x hm id condition
    rw [runNode, on_bind]
    generalize (decideOutcome x frame id condition).on m = ended at *
    obtain ⟨answer, m₁⟩ := ended
    have hready := (hdecides.extends hm).ready hm
    cases answer with
    | error f => exact ⟨_, .undecided hdecides⟩
    | ok b =>
      cases b with
      | true =>
        obtain ⟨after, hyes⟩ := runs_runNodes x yes frame m₁ hready
        exact ⟨_, .decided hdecides hyes⟩
      | false =>
        obtain ⟨after, hno⟩ := runs_runNodes x no frame m₁ hready
        exact ⟨_, .decided hdecides hno⟩
  | .loop id elements itemAs body, frame => by
    rw [runNode]
    exact runs_runLoop (fun inner => runs_runNodes x body inner) frame id elements itemAs

/-- **Running nodes.** It is an execution. -/
theorem runs_runNodes (x : Execution) :
    ∀ (nodes : List Node) (frame : Frame), Runs x frame (.nodes nodes) (runNodes x frame nodes)
  | [], frame => fun m _ => ⟨_, .nil⟩
  | n :: rest, frame => by
    intro m hm
    rw [runNodes, on_bind, on_isCancelled]
    dsimp only
    cases hc : frame.stack.isCancelled m.store with
    | true => exact ⟨_, .stopped hc⟩
    | false =>
      obtain ⟨before, hnode⟩ := runs_runNode x n frame m hm
      rw [if_neg (by simp), on_bind]
      generalize (runNode x frame n).on m = ended at *
      obtain ⟨outcome, m₁⟩ := ended
      cases outcome with
      | error f => exact ⟨_, .failed hc hnode⟩
      | ok =>
        obtain ⟨after, hrest⟩ := runs_runNodes x rest frame m₁ ((hnode.extends hm).ready hm)
        exact ⟨_, .cons hc hnode hrest⟩

end

/-! ### Whole runs -/

/-- Where the nodes at the top of a graph run. -/
def Machine.outermost (m : Machine) : Frame := ⟨.of m.root, []⟩

/-- A whole run is an execution of the nodes at the top, and then closes the scope of the whole
    runbook. -/
structure Started (x : Execution) (m : Machine) (happened : List Occurrence) (outcome : Outcome)
    (m' : Machine) : Prop where
  ready : m.Ready m.outermost
  exec : ∃ m₁, Exec x m.outermost (.nodes x.graph.nodes) m happened outcome m₁ ∧
    m' = m₁.change m.root outcome.closing

/-- Every start has a stretch that `Started` describes. -/
theorem started_start (x : Execution) {m : Machine} (hm : m.root < m.store.size) :
    ∃ happened, Started x m happened (x.start m).1 (x.start m).2 := by
  have hready : m.Ready m.outermost := ⟨hm, fun s hs => by rwa [List.mem_singleton.1 hs]⟩
  obtain ⟨happened, hexec⟩ := runs_runNodes x x.graph.nodes m.outermost m hready
  refine ⟨happened, hready, _, hexec, ?_⟩
  rw [← (hexec.extends hready).root]
  rfl

/-- A start extends the machine, and the root scope is closed last. -/
theorem Started.extends {outcome : Outcome} (h : Started x m happened outcome m') :
    Extends x.backend m (happened ++ [.changed m.root outcome.closing]) m' := by
  obtain ⟨m₁, hexec, rfl⟩ := h.exec
  exact (hexec.extends h.ready).andChange h.ready outcome.closing

/-- **The first run.** It starts with nothing on its course and leaves a sound machine. -/
theorem start_scheduled (x : Execution) (seed : Dict String Value) (events : List Event) :
    ∃ happened, Started x (.scheduled seed events) happened (x.start (.scheduled seed events)).1
        (x.start (.scheduled seed events)).2 ∧
      (x.start (.scheduled seed events)).2.course =
        happened ++ [.changed 0 (Outcome.closing (x.start (.scheduled seed events)).1)] ∧
      (x.start (.scheduled seed events)).2.Sound x.backend seed := by
  obtain ⟨happened, h⟩ := started_start x (m := .scheduled seed events) Nat.one_pos
  exact ⟨happened, h, h.extends.course, h.extends.sound seed (Machine.sound_scheduled _ _ _)⟩

end Runbook
