import Runbook.Proofs.Run.Stages
import Runbook.Proofs.Run.Tree

namespace Runbook

/-!
# Running a graph — the two failure policies

Two runs of the same graph, of which one fails with the first iteration that fails and the other
goes on, do the same until then.  After that the first one only unwinds: it closes the scopes of the
iterations around the failure, and fails their loops.

* `Execution.under` — an execution with another failure policy;
* `Parted` — what happens is the same up to a point, from which on one of the two runs unwinds;
* `GoesOn`, `Exec.goesOn` — under the policy that goes on an execution is the same, or the two part;
* `policies_agree` — the calls of the run that halts are the first ones of the run that goes on, and
  if the run that halts completes the two runs are the same.

Nothing is asked of the backend or of the events to come: until the first iteration fails, both runs
ask the same and hear the same.
-/

open Run

/-- An execution with another failure policy. -/
def Execution.under (x : Execution) (policy : FailurePolicy) : Execution :=
  { x with options := { x.options with onFailure := policy } }

/-! ### Runs that part -/

/-- What is left to do after a failure: to close a scope in error, and to fail a loop. -/
def Occurrence.Unwinds : Occurrence → Prop
  | changed _ (.closeWithError _) | changed _ (.failLoop _ _) => True
  | _ => False

/-- What happens is the same up to a point.  Then `halted` only unwinds, and `further` may bring
    anything. -/
def Parted (halted further : List Occurrence) : Prop :=
  ∃ shared unwinding later, halted = shared ++ unwinding ∧ (∀ o ∈ unwinding, o.Unwinds) ∧
    further = shared ++ later

namespace Parted

variable {halted further : List Occurrence}

/-- Two runs part where one of them unwinds. -/
theorem of_unwinds (shared : List Occurrence) {unwinding : List Occurrence}
    (h : ∀ o ∈ unwinding, o.Unwinds) (later : List Occurrence) :
    Parted (shared ++ unwinding) (shared ++ later) :=
  ⟨shared, unwinding, later, rfl, h, rfl⟩

/-- Something that both runs did before. -/
theorem prepend (before : List Occurrence) (h : Parted halted further) :
    Parted (before ++ halted) (before ++ further) := by
  obtain ⟨shared, unwinding, later, rfl, hunwinds, rfl⟩ := h
  exact ⟨before ++ shared, unwinding, later, (List.append_assoc ..).symm, hunwinds,
    (List.append_assoc ..).symm⟩

/-- The run that goes on may go on further. -/
theorem goOn (h : Parted halted further) (more : List Occurrence) :
    Parted halted (further ++ more) := by
  obtain ⟨shared, unwinding, later, rfl, hunwinds, rfl⟩ := h
  exact ⟨shared, unwinding, later ++ more, rfl, hunwinds, List.append_assoc ..⟩

/-- The other run may unwind further. -/
theorem unwind (h : Parted halted further) {more : List Occurrence}
    (hmore : ∀ o ∈ more, o.Unwinds) : Parted (halted ++ more) further := by
  obtain ⟨shared, unwinding, later, rfl, hunwinds, rfl⟩ := h
  refine ⟨shared, unwinding ++ more, later, List.append_assoc .., fun o ho => ?_, rfl⟩
  rcases List.mem_append.1 ho with ho | ho
  · exact hunwinds o ho
  · exact hmore o ho

/-- Nothing is called while a run unwinds, so its calls are the first ones of the other. -/
theorem calls (h : Parted halted further) :
    halted.filterMap Occurrence.call? <+: further.filterMap Occurrence.call? := by
  obtain ⟨shared, unwinding, later, rfl, hunwinds, rfl⟩ := h
  have hnone : unwinding.filterMap Occurrence.call? = [] := by
    refine List.filterMap_eq_nil_iff.2 fun o ho => ?_
    have hunwind := hunwinds o ho
    cases o with
    | called => exact absurd hunwind id
    | _ => rfl
  rw [List.filterMap_append, List.filterMap_append, hnone, List.append_nil]
  exact List.prefix_append _ _

end Parted

/-- Closing the scope of a failed iteration and failing its loop. -/
theorem unwinds_halt {s top : ScopeId} {id : String} {e e' : String} :
    ∀ o ∈ [Occurrence.changed s (.closeWithError e)] ++ [.changed top (.failLoop id e')],
      o.Unwinds := by
  intro o ho
  rcases List.mem_append.1 ho with ho | ho <;> rw [List.mem_singleton.1 ho] <;> trivial

/-! ### Executions that go on -/

variable {x : Execution} {frame : Frame} {m m' : Machine} {happened : List Occurrence}

theorem Acts.under {id urn : String} {params exports : Dict String String} {outcome : Outcome}
    (h : Acts x frame id urn params exports m happened outcome m') (policy : FailurePolicy) :
    Acts (x.under policy) frame id urn params exports m happened outcome m' := by
  cases h with
  | starved hw => exact .starved hw
  | failed hw hcall => exact .failed hw ⟨hcall.answered, hcall.eq, hcall.course⟩
  | done hw hcall => exact .done hw ⟨hcall.answered, hcall.eq, hcall.course⟩

theorem Decides.under {id condition : String} {answer : Except Failure Bool}
    (h : Decides x frame id condition m happened answer m') (policy : FailurePolicy) :
    Decides (x.under policy) frame id condition m happened answer m' := by
  cases h with
  | malformed hparse => exact .malformed hparse
  | starved hparse hw => exact .starved hparse hw
  | undecidable hparse hw hvalue => exact .undecidable hparse hw hvalue
  | decided hparse hw hvalue => exact .decided hparse hw hvalue

/-- An execution of the task under the policy that goes on either is the same, or parts from the
    given one, which has failed with an iteration. -/
inductive GoesOn (x : Execution) (frame : Frame) (task : Task) (m : Machine)
    (happened : List Occurrence) (outcome : Outcome) (m' : Machine) : Prop
  | same : Exec (x.under .proceed) frame task m happened outcome m' →
      GoesOn x frame task m happened outcome m'
  | parted {id : String} {index : Nat} {f : Failure} {further : List Occurrence}
      {outcome' : Outcome} {m'' : Machine} :
      outcome = .error (.iterationFailed id index f) →
      Exec (x.under .proceed) frame task m further outcome' m'' →
      Parted happened further →
      GoesOn x frame task m happened outcome m'

/-- What comes after a node that went on. -/
theorem Exec.restOfNodes {n : Node} {outcome : Outcome} (hm : m.Ready frame)
    (hcancelled : frame.stack.isCancelled m.store = false)
    (h : Exec x frame (.node n) m happened outcome m') (rest : List Node) :
    ∃ after outcome' m'', Exec x frame (.nodes (n :: rest)) m (happened ++ after) outcome' m'' := by
  cases outcome with
  | error f => exact ⟨[], _, _, by simpa using Exec.failed hcancelled h⟩
  | ok =>
    obtain ⟨after, hrest⟩ := runs_runNodes x rest frame m' ((h.extends hm).ready hm)
    exact ⟨after, _, _, .cons hcancelled h hrest⟩

/-- What comes after an iteration that went on. -/
theorem Exec.restOfRounds {id : String} {itemAs : Option String} {body : List Node} {index : Nat}
    {v : Value} {outcome : Outcome} (hm : m.Ready frame)
    (h : Exec x frame (.round id itemAs body index v) m happened outcome m')
    (values : List Value) :
    ∃ after outcome' m'', Exec x frame (.rounds id itemAs body index (v :: values)) m
      (happened ++ after) outcome' m'' := by
  cases outcome with
  | error f => exact ⟨[], _, _, by simpa using Exec.lastRound h⟩
  | ok =>
    obtain ⟨after, hrest⟩ := runs_iterateAll (runs_runNodes x body) frame id itemAs values
      (index + 1) m' ((h.extends hm).ready hm)
    exact ⟨after, _, _, .nextRound h hrest⟩

/-- What comes after the body of an iteration that went on. -/
theorem Exec.restOfRound {id : String} {itemAs : Option String} {body : List Node} {index : Nat}
    {v : Value} {outcome : Outcome} (hcancelled : frame.stack.isCancelled m.store = false)
    (h : Exec (x.under .proceed) (frame.inner id index m.store.size) (.nodes body)
      (m.openIteration frame id itemAs index v) happened outcome m') :
    ∃ after outcome' m'', Exec (x.under .proceed) frame (.round id itemAs body index v) m
      (openingOf frame id itemAs index v m.store.size ++ happened ++ after) outcome' m'' := by
  cases outcome with
  | ok => exact ⟨_, _, _, .completed hcancelled h⟩
  | error f =>
    by_cases hf : f = .cancelled
    · subst hf
      exact ⟨_, _, _, .interrupted hcancelled h⟩
    · exact ⟨_, _, _, .passed hcancelled h hf rfl⟩

/-- An iteration that fails the loop goes on under the other policy, where the two runs part unless
    they have done so in the body. -/
theorem GoesOn.halt {id : String} {itemAs : Option String} {body : List Node} {index : Nat}
    {v : Value} {f : Failure} (hcancelled : frame.stack.isCancelled m.store = false)
    (hbody : GoesOn x (frame.inner id index m.store.size) (.nodes body)
      (m.openIteration frame id itemAs index v) happened (.error f) m') (hf : f ≠ .cancelled) :
    GoesOn x frame (.round id itemAs body index v) m
      (openingOf frame id itemAs index v m.store.size ++ happened ++
        [.changed m.store.size (.closeWithError f.message)] ++
        [.changed frame.top (.failLoop id (Failure.iterationFailed id index f).recordText)])
      (.error (.iterationFailed id index f))
      ((m'.change m.store.size (.closeWithError f.message)).change frame.top
        (.failLoop id (Failure.iterationFailed id index f).recordText)) := by
  rw [List.append_assoc _ _ [_]]
  cases hbody with
  | same hbody => exact .parted rfl (.passed hcancelled hbody hf rfl) (.of_unwinds _ unwinds_halt _)
  | parted _ hbody hparted =>
    obtain ⟨after, _, _, hround⟩ := hbody.restOfRound hcancelled
    exact .parted rfl hround (((hparted.prepend _).unwind unwinds_halt).goOn after)

/-- **Going on.** Under the policy that goes on an execution is the same, or the two part where an
    iteration fails. -/
theorem Exec.goesOn {task : Task} {outcome : Outcome} (hhalt : x.options.onFailure = .halt)
    (h : Exec x frame task m happened outcome m') (hm : m.Ready frame) :
    GoesOn x frame task m happened outcome m' := by
  induction h with
  | nil => exact .same .nil
  | noRounds => exact .same .noRounds
  | stopped hcancelled => exact .same (.stopped hcancelled)
  | refused hcancelled => exact .same (.refused hcancelled)
  | action h => exact .same (.action (h.under _))
  | undecided h => exact .same (.undecided (h.under _))
  | starved hw => exact .same (.starved hw)
  | failed hcancelled _ ih =>
    cases ih hm with
    | same h => exact .same (.failed hcancelled h)
    | parted hfailed h hparted =>
      obtain ⟨after, _, _, hnodes⟩ := h.restOfNodes hm hcancelled _
      exact .parted hfailed hnodes (hparted.goOn after)
  | cons hcancelled h _ ih ih' =>
    -- The first node has not failed, so it is the same under both policies.
    cases ih hm with
    | parted hfailed => cases hfailed
    | same hnode =>
      cases ih' ((h.extends hm).ready hm) with
      | same hrest => exact .same (.cons hcancelled hnode hrest)
      | parted hfailed hrest hparted =>
        exact .parted hfailed (.cons hcancelled hnode hrest) (hparted.prepend _)
  | decided h _ ih =>
    cases ih ((h.extends hm).ready hm) with
    | same hbranch => exact .same (.decided (h.under _) hbranch)
    | parted hfailed hbranch hparted =>
      exact .parted hfailed (.decided (h.under _) hbranch) (hparted.prepend _)
  | broken hw _ ih =>
    cases ih ((hw.extends_after x.backend hm).ready hm) with
    | same hrounds => exact .same (.broken hw hrounds)
    | @parted _ _ _ _ outcome' _ hfailed hrounds hparted =>
      cases outcome' with
      | error f => exact .parted hfailed (.broken hw hrounds) (hparted.prepend _)
      | ok => exact .parted hfailed (.finished hw hrounds) ((hparted.prepend _).goOn _)
  | finished hw _ ih =>
    cases ih ((hw.extends_after x.backend hm).ready hm) with
    | parted hfailed => cases hfailed
    | same hrounds => exact .same (.finished hw hrounds)
  | lastRound _ ih =>
    cases ih hm with
    | same h => exact .same (.lastRound h)
    | parted hfailed h hparted =>
      obtain ⟨after, _, _, hrounds⟩ := h.restOfRounds hm _
      exact .parted hfailed hrounds (hparted.goOn after)
  | nextRound h _ ih ih' =>
    cases ih hm with
    | parted hfailed => cases hfailed
    | same hround =>
      cases ih' ((h.extends hm).ready hm) with
      | same hrest => exact .same (.nextRound hround hrest)
      | parted hfailed hrest hparted =>
        exact .parted hfailed (.nextRound hround hrest) (hparted.prepend _)
  | completed hcancelled _ ih =>
    obtain ⟨-, hready⟩ := extends_openIteration x.backend hm _ _ _ _
    cases ih hready with
    | parted hfailed => cases hfailed
    | same hbody => exact .same (.completed hcancelled hbody)
  | passed _ _ _ hproceed =>
    rw [hhalt] at hproceed
    cases hproceed
  | halted hcancelled _ hf _ ih =>
    obtain ⟨-, hready⟩ := extends_openIteration x.backend hm _ _ _ _
    exact .halt hcancelled (ih hready) hf
  | interrupted hcancelled _ ih =>
    obtain ⟨-, hready⟩ := extends_openIteration x.backend hm _ _ _ _
    cases ih hready with
    | parted hfailed => cases hfailed
    | same hbody => exact .same (.interrupted hcancelled hbody)

/-! ### Whole runs -/

/-- A whole run is what its nodes do, after which the outermost scope is closed. -/
theorem Exec.start_eq {outcome : Outcome}
    (h : Exec x m.outermost (.nodes x.graph.nodes) m happened outcome m') :
    x.start m = (outcome, m'.change m'.root outcome.closing) := by
  have hon : (runNodes x ⟨.of m.root, []⟩ x.graph.nodes).run.run m = (outcome, m') := h.on_eq
  rw [Execution.start, hon]

/-- Under the policy that goes on a whole run is the same as under the one that halts, or the two
    part where an iteration fails. -/
theorem parted_start (x : Execution) {m : Machine} (hm : m.root < m.store.size) :
    (x.under .proceed).start m = (x.under .halt).start m ∨
      (∃ id index f, ((x.under .halt).start m).1 = .error (.iterationFailed id index f)) ∧
      ∃ happened further, Parted happened further ∧
        ((x.under .halt).start m).2.course = m.course ++ happened ∧
        ((x.under .proceed).start m).2.course = m.course ++ further := by
  obtain ⟨happened, hstarted⟩ := started_start (x.under .halt) hm
  obtain ⟨m₁, hexec, -⟩ := hstarted.exec
  have hready := hstarted.ready
  have hroot : ∀ {x : Execution} {happened : List Occurrence} {outcome : Outcome} {m' : Machine},
      Exec x m.outermost (.nodes x.graph.nodes) m happened outcome m' →
      (m'.change m'.root outcome.closing).course =
        m.course ++ (happened ++ [.changed m'.root outcome.closing]) := fun h => by
    rw [Machine.course_of_journal rfl, (h.extends hready).course, List.append_assoc]
  cases hexec.goesOn rfl hready with
  | same hsame => exact .inl (hsame.start_eq.trans hexec.start_eq.symm)
  | @parted id index f further outcome' m'' hfailed hfurther hparted =>
    have hend : (x.under .proceed).start m = _ := hfurther.start_eq
    rw [hexec.start_eq, hend]
    refine .inr ⟨⟨id, index, f, hfailed⟩, _, _, ?_, hroot hexec, hroot hfurther⟩
    -- The scope of the whole runbook is closed in error after the run that halts.
    refine (hparted.unwind fun o ho => ?_).goOn _
    rw [List.mem_singleton.1 ho, hfailed]
    trivial

/-- **The two policies.** The calls of a run that halts with the first iteration that fails are the
    first ones of the run that goes on.  If the run that halts completes, the other one ends in the
    same way and leaves the same machine behind, with its scopes, their records and the calls. -/
theorem policies_agree (x : Execution) (seed : Dict String Value) (events : List Event) :
    ((x.under .halt).start (.scheduled seed events)).2.calls.reverse <+:
        ((x.under .proceed).start (.scheduled seed events)).2.calls.reverse ∧
      (((x.under .halt).start (.scheduled seed events)).1 = .ok () →
        (x.under .proceed).start (.scheduled seed events) =
          (x.under .halt).start (.scheduled seed events)) := by
  have hcalls : ∀ m : Machine, m.calls.reverse = m.course.filterMap Occurrence.call? := fun m => by
    rw [Machine.course, List.filterMap_reverse, Machine.calls]
  rcases parted_start x (m := .scheduled seed events) Nat.one_pos with
    heq | ⟨⟨id, index, f, hf⟩, happened, further, hparted, hcourse, hcourse'⟩
  · rw [heq]
    exact ⟨List.prefix_rfl, fun _ => rfl⟩
  · rw [hcalls, hcalls, hcourse, hcourse', hf]
    exact ⟨hparted.calls, fun hdone => by cases hdone⟩

/-- The run that goes on comes to the action after the loop, which the one that halts does not. -/
example :
    ((nestedRun.under .proceed).start (.scheduled ∅ nestedEvents)).2.calls.reverse =
      ((nestedRun.under .halt).start (.scheduled ∅ nestedEvents)).2.calls.reverse ++
        [⟨"w", ∅⟩] := by
  decide +kernel

end Runbook
