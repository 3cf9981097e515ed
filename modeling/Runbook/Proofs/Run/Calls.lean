import Runbook.Proofs.Run.Tree

namespace Runbook

/-!
# Running a graph — calls and records

A run calls actions and keeps records of them.  This file shows that the records account for the
calls: each call is found in one record, with its inputs and its answer, and a record without a call
says why there was none.

* `Dispatch`, `Machine.dispatches` — the calls of a run, with where they were made from;
* `Accounted` — the records account for the calls;
* `accounted_start` — after the first run of a graph that was built, they do.
-/

/-! ### Calls -/

/-- A call with its answer, and the scope and the node that it was made from. -/
structure Dispatch where
  scope : ScopeId
  node : String
  call : ActionCall
  answer : Except ActionError ActionResult

/-- Where the record of a call is found. -/
def Dispatch.place (d : Dispatch) : ScopeId × String := (d.scope, d.node)

/-- What is on record of a call: its inputs, and its result or its error. -/
def Dispatch.record (d : Dispatch) : ActionRecord := .answered d.call.inputs d.answer

def Occurrence.dispatch? : Occurrence → Option Dispatch
  | called scope node call answer => some ⟨scope, node, call, answer⟩
  | _ => none

/-- The calls of a run, the earliest first. -/
def Machine.dispatches (m : Machine) : List Dispatch := m.course.filterMap Occurrence.dispatch?

/-- A dispatch has the call that was made. -/
theorem Occurrence.map_dispatch? (o : Occurrence) : o.dispatch?.map Dispatch.call = o.call? := by
  cases o <;> rfl

/-- The calls of a stretch are those of its dispatches. -/
theorem filterMap_call? (happened : List Occurrence) :
    happened.filterMap Occurrence.call? =
      (happened.filterMap Occurrence.dispatch?).map Dispatch.call := by
  rw [List.map_filterMap, funext Occurrence.map_dispatch?]

/-- `Machine.dispatches` and `Machine.calls` list the same calls, in opposite orders. -/
theorem map_call_dispatches (m : Machine) :
    m.dispatches.map Dispatch.call = m.calls.reverse := by
  rw [Machine.dispatches, ← filterMap_call?, Machine.course, List.filterMap_reverse, Machine.calls]

/-- The calls of a node are among what is about the node. -/
theorem filter_dispatch? (s : ScopeId) (id : String) (happened : List Occurrence) :
    (happened.filterMap Occurrence.dispatch?).filter (fun d => d.place = (s, id)) =
      (aboutNode s id happened).filterMap Occurrence.dispatch? := by
  rw [aboutNode, List.filter_filterMap, List.filterMap_filter]
  refine congrArg (List.filterMap · happened) (funext fun o => ?_)
  cases o with
  | called t node call answer =>
    by_cases h : (t, node) = (s, id) <;>
      simp [Occurrence.dispatch?, Occurrence.about?, Dispatch.place, h, -Prod.mk.injEq]
  | _ => exact (ite_self none).symm

/-- Every answer is the one of the backend, given the calls before. -/
theorem Answered.dispatch {backend : Backend} {journal : List Occurrence}
    (h : Answered backend journal) {before after : List Dispatch} {d : Dispatch}
    (hsplit : journal.reverse.filterMap Occurrence.dispatch? = before ++ d :: after) :
    d.answer = backend (before.map Dispatch.call).reverse d.call := by
  -- The split of the calls is a split of the journal, with things that are no calls in between.
  obtain ⟨earlier, later, hjournal, rfl, hlater⟩ := List.filterMap_eq_append_iff.1 hsplit
  obtain ⟨skipped, o, rest, rfl, hskipped, ho, -⟩ := List.filterMap_eq_cons_iff.1 hlater
  have hanswered : Answered backend (rest.reverse ++ o :: (earlier ++ skipped).reverse) := by
    rw [← List.reverse_reverse journal, hjournal] at h
    simpa using h
  cases o with
  | called s node call answer =>
    obtain rfl := Option.some.inj ho
    obtain ⟨hanswer, -⟩ := hanswered.of_append
    -- What was skipped holds no call, so the calls before are the same on both sides.
    rw [List.filterMap_reverse, filterMap_call?, List.filterMap_append,
      List.filterMap_eq_nil_iff.2 hskipped, List.append_nil] at hanswer
    exact hanswer
  | _ => cases ho

/-! ### Stories of calls -/

/-- Why the record of an action tells of no call. -/
def unmadeReasons : List String := ["timed out waiting for dependency", "execution cancelled"]

/-- An action that gives up a wait makes no call. -/
theorem recordText_ofWait (node : String) (e : WaitError) :
    (Failure.ofWait node e).recordText ∈ unmadeReasons := by
  cases e with
  | timedOut => exact List.mem_cons_self
  | cancelled => exact List.mem_cons_of_mem _ List.mem_cons_self

/-- The records of a node account for the calls of the node. -/
inductive Accounts (nodes : List Node) (s : ScopeId) (id : String) :
    List Dispatch → Option ActionRecord → Prop
  | call {urn : String} {params exports inputs : Dict String String}
      (answer : Except ActionError ActionResult) :
      .action id urn params exports ∈ nodes → inputs.keys = params.keys →
      Accounts nodes s id [⟨s, id, ⟨urn, inputs⟩, answer⟩] (some (.answered inputs answer))
  | noCall {reason : String} : reason ∈ unmadeReasons →
      Accounts nodes s id [] (some (.uncalled reason))
  | noAction : Accounts nodes s id [] none

namespace Accounts

variable {nodes : List Node} {s : ScopeId} {id : String} {calls : List Dispatch}
  {record : Option ActionRecord}

/-- An action makes at most one call. -/
theorem length_le (h : Accounts nodes s id calls record) : calls.length ≤ 1 := by
  cases h with
  | call => exact Nat.le_refl _
  | _ => exact Nat.zero_le _

/-- The call of an action has its urn and the names of its parameters, and its record is the one
    that `Dispatch.record` says. -/
theorem of_mem (h : Accounts nodes s id calls record) {d : Dispatch} (hd : d ∈ calls) :
    record = some d.record ∧ ∃ params exports, .action id d.call.urn params exports ∈ nodes ∧
      d.call.inputs.keys = params.keys := by
  cases h with
  | call answer hn hkeys =>
    rw [List.mem_singleton.1 hd]
    exact ⟨rfl, _, _, hn, hkeys⟩
  | _ => exact absurd hd List.not_mem_nil

/-- A record without a call says why none was made. -/
theorem of_nil {r : ActionRecord} (h : Accounts nodes s id [] (some r)) :
    ∃ reason ∈ unmadeReasons, r = .uncalled reason := by
  cases h with
  | noCall hreason => exact ⟨_, hreason, rfl⟩

end Accounts

/-- Putting iterations on record makes no calls. -/
theorem filterMap_dispatch?_iterationsOf {s : ScopeId} {id : String} (its : List Iteration) :
    ∀ index, (iterationsOf s id index its).filterMap Occurrence.dispatch? = [] := by
  induction its with
  | nil => exact fun _ => rfl
  | cons i rest ih => exact fun index => ih (index + 1)

/-- `Accounts` by the kind of the story: only those of actions make calls. -/
theorem Story.accounts {s : ScopeId} {n : Node} {nodes : List Node} {story : List Occurrence}
    (h : Story s n story) (hn : n ∈ nodes) :
    Accounts nodes s n.id (story.filterMap Occurrence.dispatch?)
      ((Scope.leftBy s story).recordsOf n.id).1 := by
  cases h with
  | starved e =>
    rw [Node.id, Scope.leftBy_eq_after, recordsOf_starved]
    exact .noCall (recordText_ofWait _ e)
  | failed values e =>
    rw [Node.id, Scope.leftBy_eq_after, recordsOf_failed]
    exact .call _ hn (keys_inputsOf _ _)
  | done values result =>
    rw [Node.id, Scope.leftBy_eq_after, recordsOf_done]
    exact .call _ hn (keys_inputsOf _ _)
  | undecided f =>
    rw [Node.id, Scope.leftBy_eq_after, recordsOf_undecided]
    exact .noAction
  | decided b used =>
    rw [Node.id, Scope.leftBy_eq_after, recordsOf_decided]
    exact .noAction
  | broken its f =>
    rw [Node.id, Scope.leftBy_eq_after, recordsOf_loop _ (.inr ⟨_, rfl⟩), List.filterMap_append,
      List.filterMap_append, filterMap_dispatch?_iterationsOf]
    exact .noAction
  | finished its =>
    rw [Node.id, Scope.leftBy_eq_after, recordsOf_loop _ (.inl rfl), List.filterMap_append,
      List.filterMap_append, filterMap_dispatch?_iterationsOf]
    exact .noAction

/-- What is told of a node accounts for its calls, also where nothing is told. -/
theorem Tells.accounts {scopes : ScopeId → Prop} {nodes : List Node} {backend : Backend}
    {seed : Dict String Value} {m : Machine} (h : Tells scopes nodes m.course)
    (hm : m.Sound backend seed) (s : ScopeId) (id : String) :
    Accounts nodes s id (m.dispatches.filter fun d => d.place = (s, id))
      ((m.store.scope s).actions.get? id) := by
  have hrecord : (m.store.scope s).actions.get? id =
      ((Scope.leftBy s (aboutNode s id m.course)).recordsOf id).1 :=
    congrArg Prod.fst (hm.recordsOf s id)
  rw [hrecord, Machine.dispatches, filter_dispatch?]
  by_cases htold : aboutNode s id m.course = []
  · rw [htold]
    exact .noAction
  · obtain ⟨-, n, hn, rfl, hstory⟩ := h s id htold
    exact hstory.accounts hn

/-- Calls are told of in their scopes. -/
theorem Tells.of_mem_dispatches {scopes : ScopeId → Prop} {nodes : List Node} {m : Machine}
    (h : Tells scopes nodes m.course) {d : Dispatch} (hd : d ∈ m.dispatches) : scopes d.scope := by
  obtain ⟨o, ho, hod⟩ := List.mem_filterMap.1 hd
  have habout : o.about? = some (d.scope, d.node) := by
    cases o with
    | called =>
      obtain rfl := Option.some.inj hod
      rfl
    | _ => cases hod
  exact (h d.scope d.node (List.ne_nil_of_mem (mem_aboutNode.2 ⟨ho, habout⟩))).1

/-! ### Records account for calls -/

/-- The records of a run account for its calls. -/
structure Accounted (x : Execution) (m : Machine) : Prop where
  /-- The calls are the ones that the backend was given, in this order. -/
  calls : m.dispatches.map Dispatch.call = m.calls.reverse
  /-- Each call was answered by the backend, given the calls before. -/
  answers : ∀ before d after, m.dispatches = before ++ d :: after →
    d.answer = x.backend (before.map Dispatch.call).reverse d.call
  executions : m.executions = m.dispatches.length
  /-- No two calls share a record. -/
  distinct : (m.dispatches.map Dispatch.place).Nodup
  /-- Calls are made from the scope of the runbook and from scopes of iterations. -/
  reached : ∀ d ∈ m.dispatches, m.store.InTree m.root d.scope
  /-- A call goes to the urn of its node, with the parameters declared there. -/
  declared : ∀ d ∈ m.dispatches, ∃ params exports,
    .action d.node d.call.urn params exports ∈ Node.listing x.graph.nodes ∧
      d.call.inputs.keys = params.keys
  /-- The record of a call holds its inputs, and its result or its error. -/
  recorded : ∀ d ∈ m.dispatches, (m.store.scope d.scope).actions.get? d.node = some d.record
  /-- All other records are of actions that failed before they were called. -/
  others : ∀ s id r, (m.store.scope s).actions.get? id = some r →
    (s, id) ∉ m.dispatches.map Dispatch.place → ∃ reason ∈ unmadeReasons, r = .uncalled reason

/-- **Calls and records.** After the first run of a graph that was built, the records account for
    the calls. -/
theorem accounted_start {document : List Step} {ids rest : IdSource} (x : Execution)
    (h : Graph.build document ids = (.ok x.graph, rest)) (seed : Dict String Value)
    (events : List Event) : Accounted x (x.start (.scheduled seed events)).2 := by
  obtain ⟨-, hd⟩ := Graph.build_ok h
  have htells := tells_start x seed events hd
  have htree := inTree_start x seed events hd
  obtain ⟨happened, -, -, hsound⟩ := start_scheduled x seed events
  generalize (x.start (.scheduled seed events)).2 = m at *
  have haccounts := htells.accounts hsound
  -- A call is accounted for at its place.
  have hmem : ∀ d ∈ m.dispatches, d ∈ m.dispatches.filter fun d' => d'.place = (d.scope, d.node) :=
    fun d hd => List.mem_filter.2 ⟨hd, decide_eq_true rfl⟩
  constructor
  case calls => exact map_call_dispatches m
  case answers => exact fun before d after hsplit => hsound.answered.dispatch hsplit
  case executions =>
    rw [hsound.executions, ← List.length_reverse, ← map_call_dispatches, List.length_map]
  case distinct =>
    refine List.nodup_iff_count.2 fun p => ?_
    rw [List.count, List.countP_map, List.countP_eq_length_filter]
    refine le_of_eq_of_le (congrArg List.length (List.filter_congr fun d _ => ?_))
      (haccounts p.1 p.2).length_le
    exact beq_eq_decide _ _
  case reached => exact fun d hd => htree d.scope (htells.of_mem_dispatches hd)
  case declared => exact fun d hd => ((haccounts d.scope d.node).of_mem (hmem d hd)).2
  case recorded => exact fun d hd => ((haccounts d.scope d.node).of_mem (hmem d hd)).1
  case others =>
    intro s id r hr hout
    have hnone : (m.dispatches.filter fun d => d.place = (s, id)) = [] :=
      List.filter_eq_nil_iff.2 fun d hd hplace =>
        hout (List.mem_map.2 ⟨d, hd, of_decide_eq_true hplace⟩)
    have := haccounts s id
    rw [hnone, hr] at this
    exact this.of_nil

/-- The loop in the choice makes two calls, one from each iteration. -/
theorem accounted_nestedRun :
    Graph.build Graph.nestedSteps .fresh = (.ok nestedRun.graph, ⟨5⟩) ∧
      (nestedRun.start (.scheduled ∅ nestedEvents)).2.dispatches.map Dispatch.place =
        [(1, "2"), (2, "2")] ∧
      Accounted nestedRun (nestedRun.start (.scheduled ∅ nestedEvents)).2 :=
  ⟨Graph.build_nestedSteps, by decide +kernel,
    accounted_start nestedRun Graph.build_nestedSteps ∅ nestedEvents⟩

end Runbook
