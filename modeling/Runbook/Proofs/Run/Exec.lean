import Runbook.Proofs.Run.Parts

namespace Runbook

/-!
# Running a graph — executions

`Exec` is the run of a graph as a relation.  Its derivations follow the nodes, their branches and
the iterations of loops, and name at each of them what happens there, how it ends and where it
leaves the machine, so that a law of all runs is proved by one induction.

* `Called` — a call with all that happens in it;
* `Acts`, `Decides` — the runs of an action and of the decision of a choice;
* `Task`, `Exec` — what there is to run, and its run;
* `Exec.extends` — an execution extends the machine by what happens in it;
* `Opened` — the scopes that were opened on the way from one machine to another.
-/

abbrev Frame.top (frame : Frame) : ScopeId := frame.stack.top

/-- Where the body of a loop runs. -/
def Frame.inner (frame : Frame) (id : String) (index : Nat) (scope : ScopeId) : Frame :=
  ⟨frame.stack.push scope, frame.path ++ [(id, index)]⟩

/-! ### Actions -/

/-- A node calls its action, `heard` being what happens until the answer is there. -/
structure Called (x : Execution) (frame : Frame) (id : String) (c : ActionCall) (m : Machine)
    (answer : Except ActionError ActionResult) (heard : List Occurrence) (m' : Machine) :
    Prop where
  answered : x.backend m.calls c = answer
  eq : x.called frame id c m = m'
  course : m'.course = m.course ++ ([.called frame.top id c answer] ++ heard)

/-- An action runs. -/
inductive Acts (x : Execution) (frame : Frame) (id urn : String)
    (params exports : Dict String String) (m : Machine) :
    List Occurrence → Outcome → Machine → Prop
  /-- A parameter does not come. -/
  | starved {waited : List Occurrence} {e : WaitError} {m₁ : Machine} :
      Awaited frame id x.options.actionLimit (referencesOf params.entries)
        (m.change frame.top (.startAction id)) waited (.error e) m₁ →
      Acts x frame id urn params exports m
        ([.changed frame.top (.startAction id)] ++ waited ++
          [.changed frame.top (.failAction id (Failure.ofWait id e).recordText)])
        (.error (.ofWait id e))
        (m₁.change frame.top (.failAction id (Failure.ofWait id e).recordText))
  /-- The call fails. -/
  | failed {waited heard : List Occurrence} {values : List Value} {m₁ m₂ : Machine}
      {e : ActionError} :
      Awaited frame id x.options.actionLimit (referencesOf params.entries)
        (m.change frame.top (.startAction id)) waited (.ok values) m₁ →
      Called x frame id ⟨urn, inputsOf params values⟩
        (m₁.change frame.top (.recordParams id (inputsOf params values) true)) (.error e) heard m₂ →
      Acts x frame id urn params exports m
        ([.changed frame.top (.startAction id)] ++ waited ++
          [.changed frame.top (.recordParams id (inputsOf params values) true)] ++
          ([.called frame.top id ⟨urn, inputsOf params values⟩ (.error e)] ++ heard) ++
          [.changed frame.top (.failAction id (Failure.actionFailed id e).recordText)])
        (.error (.actionFailed id e))
        (m₂.change frame.top (.failAction id (Failure.actionFailed id e).recordText))
  /-- The call succeeds. -/
  | done {waited heard : List Occurrence} {values : List Value} {m₁ m₂ : Machine}
      {result : ActionResult} :
      Awaited frame id x.options.actionLimit (referencesOf params.entries)
        (m.change frame.top (.startAction id)) waited (.ok values) m₁ →
      Called x frame id ⟨urn, inputsOf params values⟩
        (m₁.change frame.top (.recordParams id (inputsOf params values) true)) (.ok result) heard
          m₂ →
      Acts x frame id urn params exports m
        ([.changed frame.top (.startAction id)] ++ waited ++
          [.changed frame.top (.recordParams id (inputsOf params values) true)] ++
          ([.called frame.top id ⟨urn, inputsOf params values⟩ (.ok result)] ++ heard) ++
          Occurrence.publication frame.stack.scopes (Run.exportsOf exports result) ++
          [.changed frame.top (.completeAction id result (Run.exportsOf exports result))])
        (.ok ())
        ((m₂.publish frame.stack (Run.exportsOf exports result)).change frame.top
          (.completeAction id result (Run.exportsOf exports result)))

/-! ### Decisions -/

/-- A choice decides, or fails to. -/
inductive Decides (x : Execution) (frame : Frame) (id condition : String) (m : Machine) :
    List Occurrence → Except Failure Bool → Machine → Prop
  | malformed {e : ParseError} :
      Condition.parse condition = .error e →
      Decides x frame id condition m
        ([.changed frame.top (.startChoice id)] ++
          [.changed frame.top (.failChoice id (Failure.conditionMalformed id e).recordText)])
        (.error (.conditionMalformed id e))
        ((m.change frame.top (.startChoice id)).change frame.top
          (.failChoice id (Failure.conditionMalformed id e).recordText))
  /-- A reference gets no value. -/
  | starved {c : Condition} {waited : List Occurrence} {e : WaitError} {m₁ : Machine} :
      Condition.parse condition = .ok c →
      Awaited frame id x.options.conditionLimit c.comparison.references
        (m.change frame.top (.startChoice id)) waited (.error e) m₁ →
      Decides x frame id condition m
        ([.changed frame.top (.startChoice id)] ++ waited ++
          [.changed frame.top (.failChoice id (Failure.ofWait id e).recordText)])
        (.error (.ofWait id e))
        (m₁.change frame.top (.failChoice id (Failure.ofWait id e).recordText))
  | undecidable {c : Condition} {waited : List Occurrence} {values : List Value} {m₁ : Machine}
      {e : EvalError} :
      Condition.parse condition = .ok c →
      Awaited frame id x.options.conditionLimit c.comparison.references
        (m.change frame.top (.startChoice id)) waited (.ok values) m₁ →
      (c.bindEach c.comparison.references values).evaluate = .error e →
      Decides x frame id condition m
        ([.changed frame.top (.startChoice id)] ++ waited ++
          [.changed frame.top
            (.failChoice id (Failure.conditionUndecidable id condition e).recordText)])
        (.error (.conditionUndecidable id condition e))
        (m₁.change frame.top
          (.failChoice id (Failure.conditionUndecidable id condition e).recordText))
  | decided {c : Condition} {waited : List Occurrence} {values : List Value} {m₁ : Machine}
      {b : Bool} :
      Condition.parse condition = .ok c →
      Awaited frame id x.options.conditionLimit c.comparison.references
        (m.change frame.top (.startChoice id)) waited (.ok values) m₁ →
      (c.bindEach c.comparison.references values).evaluate = .ok b →
      Decides x frame id condition m
        ([.changed frame.top (.startChoice id)] ++ waited ++
          [.changed frame.top (.decideChoice id b
            ((c.bindEach c.comparison.references values).bound.map Value.text))])
        (.ok b)
        (m₁.change frame.top (.decideChoice id b
          ((c.bindEach c.comparison.references values).bound.map Value.text)))

/-! ### Iterations -/

/-- What opening an iteration puts on the journal, `scope` being the new scope. -/
def openingOf (frame : Frame) (id : String) (itemAs : Option String) (index : Nat) (value : Value)
    (scope : ScopeId) : List Occurrence :=
  [.opened scope] ++ [.changed frame.top (.startIteration id index value scope)] ++
    itemAs.toList.map fun name => .changed scope (.publish (.singleton name value))

/-- A machine on which an iteration was opened.  Its scope is the one after all scopes of `m`. -/
def Machine.openIteration (m : Machine) (frame : Frame) (id : String) (itemAs : Option String)
    (index : Nat) (value : Value) : Machine :=
  let started := (m.pushChild frame.stack).2.change frame.top
    (.startIteration id index value m.store.size)
  match itemAs with
  | some name => started.change m.store.size (.publish (.singleton name value))
  | none => started

/-! ### Executions -/

/-- What there is to run. -/
inductive Task where
  | nodes (nodes : List Node)
  | node (n : Node)
  /-- Iterations of the loop `id` over `values`, the first of them with number `index`. -/
  | rounds (id : String) (itemAs : Option String) (body : List Node) (index : Nat)
      (values : List Value)
  | round (id : String) (itemAs : Option String) (body : List Node) (index : Nat) (value : Value)

/-- `Exec x frame task m happened outcome m'` — running `task` in `frame` takes the machine from
    `m` to `m'` and ends with `outcome`, `happened` being what happens in between. -/
inductive Exec (x : Execution) :
    Frame → Task → Machine → List Occurrence → Outcome → Machine → Prop
  | nil {frame : Frame} {m : Machine} : Exec x frame (.nodes []) m [] (.ok ()) m
  /-- No node starts once the run is cancelled. -/
  | stopped {frame : Frame} {n : Node} {rest : List Node} {m : Machine} :
      frame.stack.isCancelled m.store = true →
      Exec x frame (.nodes (n :: rest)) m [] (.error .cancelled) m
  | failed {frame : Frame} {n : Node} {rest : List Node} {m m' : Machine}
      {happened : List Occurrence} {f : Failure} :
      frame.stack.isCancelled m.store = false →
      Exec x frame (.node n) m happened (.error f) m' →
      Exec x frame (.nodes (n :: rest)) m happened (.error f) m'
  | cons {frame : Frame} {n : Node} {rest : List Node} {m m₁ m' : Machine}
      {before after : List Occurrence} {outcome : Outcome} :
      frame.stack.isCancelled m.store = false →
      Exec x frame (.node n) m before (.ok ()) m₁ →
      Exec x frame (.nodes rest) m₁ after outcome m' →
      Exec x frame (.nodes (n :: rest)) m (before ++ after) outcome m'
  | action {frame : Frame} {id urn : String} {params exports : Dict String String}
      {m m' : Machine} {happened : List Occurrence} {outcome : Outcome} :
      Acts x frame id urn params exports m happened outcome m' →
      Exec x frame (.node (.action id urn params exports)) m happened outcome m'
  | undecided {frame : Frame} {id condition : String} {yes no : List Node} {m m' : Machine}
      {happened : List Occurrence} {f : Failure} :
      Decides x frame id condition m happened (.error f) m' →
      Exec x frame (.node (.choice id condition yes no)) m happened (.error f) m'
  | decided {frame : Frame} {id condition : String} {yes no : List Node} {m m₁ m' : Machine}
      {before after : List Occurrence} {b : Bool} {outcome : Outcome} :
      Decides x frame id condition m before (.ok b) m₁ →
      Exec x frame (.nodes (if b then yes else no)) m₁ after outcome m' →
      Exec x frame (.node (.choice id condition yes no)) m (before ++ after) outcome m'
  /-- The elements of a loop do not come. -/
  | starved {frame : Frame} {id elements : String} {itemAs : Option String} {body : List Node}
      {m m₁ : Machine} {waited : List Occurrence} {e : WaitError} :
      Awaited frame id x.options.loopLimit [elements]
        (m.change frame.top (.startLoop id true)) waited (.error e) m₁ →
      Exec x frame (.node (.loop id elements itemAs body)) m
        ([.changed frame.top (.startLoop id true)] ++ waited ++
          [.changed frame.top (.failLoop id (Failure.ofWait id e).recordText)])
        (.error (.ofWait id e))
        (m₁.change frame.top (.failLoop id (Failure.ofWait id e).recordText))
  /-- An iteration fails the loop. -/
  | broken {frame : Frame} {id elements : String} {itemAs : Option String} {body : List Node}
      {m m₁ m' : Machine} {waited happened : List Occurrence} {v : Value} {f : Failure} :
      Awaited frame id x.options.loopLimit [elements]
        (m.change frame.top (.startLoop id true)) waited (.ok [v]) m₁ →
      Exec x frame (.rounds id itemAs body 1 v.expand) m₁ happened (.error f) m' →
      Exec x frame (.node (.loop id elements itemAs body)) m
        ([.changed frame.top (.startLoop id true)] ++ waited ++ happened) (.error f) m'
  | finished {frame : Frame} {id elements : String} {itemAs : Option String} {body : List Node}
      {m m₁ m₂ : Machine} {waited happened : List Occurrence} {v : Value} :
      Awaited frame id x.options.loopLimit [elements]
        (m.change frame.top (.startLoop id true)) waited (.ok [v]) m₁ →
      Exec x frame (.rounds id itemAs body 1 v.expand) m₁ happened (.ok ()) m₂ →
      Exec x frame (.node (.loop id elements itemAs body)) m
        ([.changed frame.top (.startLoop id true)] ++ waited ++ happened ++
          [.changed frame.top (.finishLoop id)])
        (.ok ()) (m₂.change frame.top (.finishLoop id))
  | noRounds {frame : Frame} {id : String} {itemAs : Option String} {body : List Node}
      {index : Nat} {m : Machine} :
      Exec x frame (.rounds id itemAs body index []) m [] (.ok ()) m
  | lastRound {frame : Frame} {id : String} {itemAs : Option String} {body : List Node}
      {index : Nat} {v : Value} {values : List Value} {m m' : Machine}
      {happened : List Occurrence} {f : Failure} :
      Exec x frame (.round id itemAs body index v) m happened (.error f) m' →
      Exec x frame (.rounds id itemAs body index (v :: values)) m happened (.error f) m'
  | nextRound {frame : Frame} {id : String} {itemAs : Option String} {body : List Node}
      {index : Nat} {v : Value} {values : List Value} {m m₁ m' : Machine}
      {before after : List Occurrence} {outcome : Outcome} :
      Exec x frame (.round id itemAs body index v) m before (.ok ()) m₁ →
      Exec x frame (.rounds id itemAs body (index + 1) values) m₁ after outcome m' →
      Exec x frame (.rounds id itemAs body index (v :: values)) m (before ++ after) outcome m'
  /-- No iteration begins once the run is cancelled. -/
  | refused {frame : Frame} {id : String} {itemAs : Option String} {body : List Node}
      {index : Nat} {v : Value} {m : Machine} :
      frame.stack.isCancelled m.store = true →
      Exec x frame (.round id itemAs body index v) m
        [.changed frame.top (.failLoop id Failure.cancelled.recordText)] (.error .cancelled)
        (m.change frame.top (.failLoop id Failure.cancelled.recordText))
  | completed {frame : Frame} {id : String} {itemAs : Option String} {body : List Node}
      {index : Nat} {v : Value} {m m₁ : Machine} {happened : List Occurrence} :
      frame.stack.isCancelled m.store = false →
      Exec x (frame.inner id index m.store.size) (.nodes body)
        (m.openIteration frame id itemAs index v) happened (.ok ()) m₁ →
      Exec x frame (.round id itemAs body index v) m
        (openingOf frame id itemAs index v m.store.size ++ happened ++
          [.changed m.store.size .close])
        (.ok ()) (m₁.change m.store.size .close)
  /-- The iteration fails, and the loop goes on. -/
  | passed {frame : Frame} {id : String} {itemAs : Option String} {body : List Node}
      {index : Nat} {v : Value} {m m₁ : Machine} {happened : List Occurrence} {f : Failure} :
      frame.stack.isCancelled m.store = false →
      Exec x (frame.inner id index m.store.size) (.nodes body)
        (m.openIteration frame id itemAs index v) happened (.error f) m₁ →
      f ≠ .cancelled → x.options.onFailure = .proceed →
      Exec x frame (.round id itemAs body index v) m
        (openingOf frame id itemAs index v m.store.size ++ happened ++
          [.changed m.store.size (.closeWithError f.message)])
        (.ok ()) (m₁.change m.store.size (.closeWithError f.message))
  /-- The iteration fails, and the loop with it. -/
  | halted {frame : Frame} {id : String} {itemAs : Option String} {body : List Node}
      {index : Nat} {v : Value} {m m₁ : Machine} {happened : List Occurrence} {f : Failure} :
      frame.stack.isCancelled m.store = false →
      Exec x (frame.inner id index m.store.size) (.nodes body)
        (m.openIteration frame id itemAs index v) happened (.error f) m₁ →
      f ≠ .cancelled → x.options.onFailure = .halt →
      Exec x frame (.round id itemAs body index v) m
        (openingOf frame id itemAs index v m.store.size ++ happened ++
          [.changed m.store.size (.closeWithError f.message)] ++
          [.changed frame.top (.failLoop id (Failure.iterationFailed id index f).recordText)])
        (.error (.iterationFailed id index f))
        ((m₁.change m.store.size (.closeWithError f.message)).change frame.top
          (.failLoop id (Failure.iterationFailed id index f).recordText))
  /-- The run is cancelled within the iteration, whose scope stays open. -/
  | interrupted {frame : Frame} {id : String} {itemAs : Option String} {body : List Node}
      {index : Nat} {v : Value} {m m₁ : Machine} {happened : List Occurrence} :
      frame.stack.isCancelled m.store = false →
      Exec x (frame.inner id index m.store.size) (.nodes body)
        (m.openIteration frame id itemAs index v) happened (.error .cancelled) m₁ →
      Exec x frame (.round id itemAs body index v) m
        (openingOf frame id itemAs index v m.store.size ++ happened ++
          [.changed frame.top (.failLoop id Failure.cancelled.recordText)])
        (.error .cancelled)
        (m₁.change frame.top (.failLoop id Failure.cancelled.recordText))

/-! ### Executions extend machines -/

/-- The scopes a frame needs are there. -/
structure Machine.Ready (m : Machine) (frame : Frame) : Prop where
  root : m.root < m.store.size
  stack : m.Holds frame.stack

variable {backend : Backend} {x : Execution} {frame : Frame} {m m₁ m' : Machine}
  {happened : List Occurrence}

/-- The innermost scope of the frame is in the store. -/
theorem Machine.Ready.top (h : m.Ready frame) : frame.top < m.store.size :=
  h.stack _ List.mem_cons_self

/-- Scopes are only added, so a frame stays ready. -/
theorem Extends.ready (h : Extends backend m happened m') (hm : m.Ready frame) :
    m'.Ready frame :=
  ⟨h.root ▸ Nat.lt_of_lt_of_le hm.root h.size_le, h.holds hm.stack⟩

/-- A stretch with a change of the innermost scope after it. -/
theorem Extends.andChange (h : Extends backend m happened m₁) (hm : m.Ready frame) (c : Change) :
    Extends backend m (happened ++ [.changed frame.top c]) (m₁.change frame.top c) :=
  h.trans (.change (h.ready hm).top c)

/-- A wait after a change of the innermost scope. -/
theorem Awaited.extends_after (backend : Backend) {c : Change} {id : String} {limit : Nat}
    {tokens : List String} {answer : Except WaitError (List Value)} (hm : m.Ready frame)
    (h : Awaited frame id limit tokens (m.change frame.top c) happened answer m₁) :
    Extends backend m ([.changed frame.top c] ++ happened) m₁ := by
  have hchange : Extends backend m _ (m.change frame.top c) := .change hm.top c
  exact hchange.trans (h.extends_foreign backend (hchange.ready hm).root).1

/-- After the change that starts a wait, the events of the wait come from outside. -/
theorem Awaited.foreign_after {c : Change} {id : String} {limit : Nat} {tokens : List String}
    {answer : Except WaitError (List Value)} (hm : m.Ready frame)
    (h : Awaited frame id limit tokens (m.change frame.top c) happened answer m₁) :
    ∀ o ∈ happened, o.IsForeign m.root := by
  -- No call is made meanwhile, so any backend will do.
  have hchange : Extends (fun _ _ => .ok {}) m _ (m.change frame.top c) := .change hm.top c
  exact (h.extends_foreign (fun _ _ => .ok {}) (hchange.ready hm).root).2

/-! ### Calls -/

namespace Called

variable {id : String} {c : ActionCall} {answer : Except ActionError ActionResult}
  {heard : List Occurrence}

/-- A call is followed by what events do that are meant for it, until the answer is there. -/
theorem extends_called (x : Execution) (hroot : m.root < m.store.size) (frame : Frame) (id : String)
    (c : ActionCall) :
    ∃ effects : List Effect, (∀ e ∈ effects, ⟨.callAt ⟨id, frame.path⟩, e⟩ ∈ m.schedule) ∧
      Extends x.backend m ([.called frame.top id c (x.backend m.calls c)] ++
        effects.flatMap (Effect.happens m.root)) (x.called frame id c m) := by
  obtain ⟨effects, hmeant, hheard⟩ := Machine.extends_meanwhile x.backend
    (m := m.countExecution.recordCall frame.top id c (x.backend m.calls c)) hroot ⟨id, frame.path⟩
  exact ⟨effects, hmeant, (Extends.call m frame.top id c).trans hheard⟩

/-- Every call that a ready machine makes is `Called`, with what is heard during it. -/
theorem intro (x : Execution) (hroot : m.root < m.store.size) (frame : Frame) (id : String)
    (c : ActionCall) :
    ∃ heard, Called x frame id c m (x.backend m.calls c) heard (x.called frame id c m) := by
  obtain ⟨effects, -, hext⟩ := extends_called x hroot frame id c
  exact ⟨_, rfl, rfl, hext.course⟩

/-- **Calls.** A call extends the machine by itself and by what events do that are meant for it. -/
theorem extends_effects (h : Called x frame id c m answer heard m')
    (hroot : m.root < m.store.size) :
    Extends x.backend m ([.called frame.top id c answer] ++ heard) m' ∧
      ∃ effects : List Effect, (∀ e ∈ effects, ⟨.callAt ⟨id, frame.path⟩, e⟩ ∈ m.schedule) ∧
        heard = effects.flatMap (Effect.happens m.root) := by
  obtain ⟨rfl, rfl, hcourse⟩ := h
  obtain ⟨effects, hmeant, hext⟩ := extends_called x hroot frame id c
  obtain rfl : heard = effects.flatMap (Effect.happens m.root) :=
    List.append_cancel_left (List.append_cancel_left (hcourse.symm.trans hext.course))
  exact ⟨hext, effects, hmeant, rfl⟩

/-- A call and what is heard during it, in one stretch. -/
theorem extends_foreign (h : Called x frame id c m answer heard m')
    (hroot : m.root < m.store.size) :
    Extends x.backend m ([.called frame.top id c answer] ++ heard) m' ∧
      ∀ o ∈ heard, o.IsForeign m.root := by
  obtain ⟨hext, effects, -, rfl⟩ := h.extends_effects hroot
  refine ⟨hext, fun o ho => ?_⟩
  obtain ⟨e, -, hmem⟩ := List.mem_flatMap.1 ho
  exact e.foreign_happens m.root o hmem

/-- If nothing is to come, a call is all that happens in it. -/
theorem quiet (h : Called x frame id c m answer heard m') (hschedule : m.schedule = []) :
    m' = m.countExecution.recordCall frame.top id c answer := by
  rw [← h.eq, Execution.called_eq (by simp [hschedule]), h.answered]

end Called

/-- What is heard during the call of an action comes from outside. -/
theorem Awaited.heard_foreign {c c' : Change} {id : String} {limit : Nat} {tokens : List String}
    {values : List Value} {call : ActionCall} {answer : Except ActionError ActionResult}
    {heard : List Occurrence} (hm : m.Ready frame)
    (h : Awaited frame id limit tokens (m.change frame.top c) happened (.ok values) m₁)
    (hcall : Called x frame id call (m₁.change frame.top c') answer heard m') :
    ∀ o ∈ heard, o.IsForeign m.root := by
  have hext := (h.extends_after x.backend hm).andChange hm c'
  exact hext.root ▸ (hcall.extends_foreign (hext.ready hm).root).2

/-- A stretch with a call after it. -/
theorem Extends.andCall {c : ActionCall} {answer : Except ActionError ActionResult}
    {id : String} {heard : List Occurrence} (h : Extends x.backend m happened m₁)
    (hm : m.Ready frame) (hcall : Called x frame id c m₁ answer heard m') :
    Extends x.backend m (happened ++ ([.called frame.top id c answer] ++ heard)) m' :=
  h.trans (hcall.extends_foreign (h.ready hm).root).1

/-- An action extends the machine by what happened. -/
theorem Acts.extends {id urn : String} {params exports : Dict String String} {outcome : Outcome}
    (h : Acts x frame id urn params exports m happened outcome m') (hm : m.Ready frame) :
    Extends x.backend m happened m' := by
  cases h with
  | starved hw => exact (hw.extends_after x.backend hm).andChange hm _
  | failed hw hcall =>
    exact (((hw.extends_after x.backend hm).andChange hm _).andCall hm hcall).andChange hm _
  | done hw hcall =>
    have hcalled := ((hw.extends_after x.backend hm).andChange hm _).andCall hm hcall
    exact (hcalled.trans (.publish (hcalled.ready hm).stack _)).andChange hm _

/-- Deciding extends the machine by what happened. -/
theorem Decides.extends {id condition : String} {answer : Except Failure Bool}
    (h : Decides x frame id condition m happened answer m') (hm : m.Ready frame) :
    Extends x.backend m happened m' := by
  cases h with
  | malformed => exact (Extends.change hm.top (.startChoice id)).andChange hm _
  | starved _ hw | undecidable _ hw | decided _ hw =>
    exact (hw.extends_after x.backend hm).andChange hm _

/-- One scope is opened. -/
theorem size_openIteration (m : Machine) (frame : Frame) (id : String) (itemAs : Option String)
    (index : Nat) (value : Value) :
    (m.openIteration frame id itemAs index value).store.size = m.store.size + 1 := by
  have hopen : (m.pushChild frame.stack).2.store.size = m.store.size + 1 := Store.size_openIn _ _
  cases itemAs <;> simp [Machine.openIteration, Machine.change, hopen]

/-- Opening an iteration leaves everything ready for its body. -/
theorem extends_openIteration (backend : Backend) (hm : m.Ready frame) (id : String)
    (itemAs : Option String) (index : Nat) (value : Value) :
    Extends backend m (openingOf frame id itemAs index value m.store.size)
        (m.openIteration frame id itemAs index value) ∧
      (m.openIteration frame id itemAs index value).Ready (frame.inner id index m.store.size) := by
  have hstart : Extends backend m _ _ := (Extends.pushChild m frame.stack).andChange hm
    (.startIteration id index value m.store.size)
  have hsize : m.store.size < ((m.pushChild frame.stack).2.change frame.top
      (.startIteration id index value m.store.size)).store.size := by
    rw [hstart.size]
    exact Nat.lt_succ_self _
  -- The new scope is on top of the stack, and what happens after does not take it away.
  have hinner : ∀ {after : Machine} {later : List Occurrence},
      Extends backend ((m.pushChild frame.stack).2.change frame.top
        (.startIteration id index value m.store.size)) later after →
      after.Ready (frame.inner id index m.store.size) := by
    intro after later hlater
    have hready := hlater.ready (hstart.ready hm)
    refine ⟨hready.root, fun s hs => ?_⟩
    rcases List.mem_cons.1 hs with rfl | hs
    · exact Nat.lt_of_lt_of_le hsize hlater.size_le
    · exact hready.stack s hs
  unfold openingOf Machine.openIteration
  cases itemAs with
  | none => exact ⟨by simpa using hstart, hinner (.refl _)⟩
  | some name =>
    have hitem : Extends backend _ _ _ := .change hsize (.publish (.singleton name value))
    exact ⟨hstart.trans hitem, hinner hitem⟩

/-- **Executions.** An execution extends the machine by what happens in it. -/
theorem Exec.extends {task : Task} {outcome : Outcome}
    (h : Exec x frame task m happened outcome m') (hm : m.Ready frame) :
    Extends x.backend m happened m' := by
  induction h with
  | nil | stopped | noRounds => exact .refl _
  | failed _ _ ih | lastRound _ ih => exact ih hm
  | cons _ _ _ ih ih' | nextRound _ _ ih ih' => exact (ih hm).trans (ih' ((ih hm).ready hm))
  | action h => exact h.extends hm
  | undecided h => exact h.extends hm
  | decided h _ ih => exact (h.extends hm).trans (ih ((h.extends hm).ready hm))
  | starved hw => exact (hw.extends_after x.backend hm).andChange hm _
  | broken hw _ ih =>
    have hwait := hw.extends_after x.backend hm
    exact hwait.trans (ih (hwait.ready hm))
  | finished hw _ ih =>
    have hwait := hw.extends_after x.backend hm
    exact (hwait.trans (ih (hwait.ready hm))).andChange hm _
  | refused => exact .change hm.top _
  | completed _ _ ih | passed _ _ _ _ ih =>
    obtain ⟨hopen, hready⟩ := extends_openIteration x.backend hm _ _ _ _
    have hinner := ((ih hready).ready hready).top
    exact (hopen.trans (ih hready)).trans (.change hinner _)
  | halted _ _ _ _ ih =>
    obtain ⟨hopen, hready⟩ := extends_openIteration x.backend hm _ _ _ _
    have hinner := ((ih hready).ready hready).top
    exact ((hopen.trans (ih hready)).trans (.change hinner _)).andChange hm _
  | interrupted _ _ ih =>
    obtain ⟨hopen, hready⟩ := extends_openIteration x.backend hm _ _ _ _
    exact (hopen.trans (ih hready)).andChange hm _

/-- A scope was opened on the way from one machine to another. -/
def Opened (m m' : Machine) (s : ScopeId) : Prop := m.store.size ≤ s ∧ s < m'.store.size

/-- A scope that is opened in part of a stretch is opened in the stretch. -/
theorem Opened.weaken {m₁ m₂ : Machine} {s : ScopeId} (h : Opened m₁ m₂ s)
    (hle : m.store.size ≤ m₁.store.size) (hle' : m₂.store.size ≤ m'.store.size) : Opened m m' s :=
  ⟨Nat.le_trans hle h.1, Nat.lt_of_lt_of_le h.2 hle'⟩

/-- The innermost scope of the frame was there before. -/
theorem Machine.Ready.not_opened (h : m.Ready frame) (m' : Machine) : ¬ Opened m m' frame.top :=
  fun hopened => Nat.not_le_of_lt h.top hopened.1

end Runbook
