import Runbook.Proofs.Run.FailStop
import Runbook.Proofs.Run.Scopes
import Runbook.Proofs.Run.Tree

namespace Runbook

/-!
# Running a graph — the outcome and the records

The outcome of a run is handed on from node to node, the errors are put on record where they come
up.  This file shows that the two never disagree.

* `error_told` — a scope is in error if it was closed so;
* `Outcome.Agrees` — what the records say of an outcome, for both policies;
* `agrees_start` — every run that is not cancelled ends with an outcome that agrees with its
  records.
-/

/-! ### Errors of scopes -/

/-- A scope that is never closed with an error carries none. -/
theorem error_told {course : List Occurrence} {s : ScopeId}
    (h : ∀ o ∈ course, ∀ e, o ≠ .changed s (.closeWithError e)) (seed : Dict String Value) :
    (Scope.told seed course s).error = none := by
  have hnone : (course.flatMap (Occurrence.changesOf s)).filterMap Change.closing? = [] := by
    refine List.filterMap_eq_nil_iff.2 fun c hc => Option.eq_none_iff_forall_ne_some.2 ?_
    intro e he
    obtain ⟨o, ho, hco⟩ := List.mem_flatMap.1 hc
    obtain rfl : c = .closeWithError e := Change.eq_of_closing? he
    exact h o ho e (Occurrence.eq_changed_of_mem_changesOf hco fun values => by simp)
  rw [Scope.told, Scope.error_foldl, hnone, Scope.error_initial]
  rfl

/-! ### Outcomes -/

namespace Outcome

theorem status_completed {outcome : Outcome} : outcome.status = .completed ↔ outcome = .ok () := by
  rcases outcome with f | ⟨⟩
  · cases f <;> simp [status]
  · simp [status]

theorem status_cancelled {outcome : Outcome} :
    outcome.status = .cancelled ↔ outcome = .error .cancelled := by
  rcases outcome with f | ⟨⟩
  · cases f <;> simp [status]
  · simp [status]

/-- What the records say of an outcome. -/
structure Agrees (policy : FailurePolicy) (outcome : Outcome) (m : Machine) : Prop where
  /-- If failed iterations halt loops, a run completes just if nothing in the tree of scopes is in
      error: no record, and no scope of an iteration. -/
  halt : policy = .halt → (outcome.status = .completed ↔
    ∀ s, m.store.InTree m.root s →
      (m.store.scope s).errors = [] ∧ (s ≠ m.root → (m.store.scope s).error = none))
  /-- If loops pass over failed iterations, a run completes just if no record of the scope of the
      whole runbook is in error. -/
  proceed : policy = .proceed →
    (outcome.status = .completed ↔ (m.store.scope m.root).errors = [])
  /-- A run that halts does so with the failure that is on record in the scope of the whole runbook.
      It is the only one there, and the failure names its node. -/
  halted : outcome.status = .halted → ∃ f id, outcome = .error f ∧ f.node? = some id ∧
    (m.store.scope m.root).errors = [(id, f.recordText)]

end Outcome

/-- **The outcome and the records.** -/
theorem agrees_start (x : Execution) (seed : Dict String Value) (events : List Event)
    (h : Outcome.status (x.start (.scheduled seed events)).1 ≠ .cancelled) :
    Outcome.Agrees x.options.onFailure (x.start (.scheduled seed events)).1
      (x.start (.scheduled seed events)).2 := by
  obtain ⟨happened, hstarted, hcourse, hsound⟩ := start_scheduled x seed events
  have hsilent : (_ ++ [Occurrence.changed 0 _]).Pairwise _ := hstarted.silent
  obtain ⟨m₁, hexec, -⟩ := hstarted.exec
  have hstops : Stops _ 0 _ _ _ _ := hexec.stops hstarted.ready
  clear hexec hstarted
  generalize (x.start (.scheduled seed events)).1 = outcome at *
  generalize (x.start (.scheduled seed events)).2 = m at *
  -- The errors on record are the failures in the course, closing the run adds none.
  have herrors : ∀ s, (m.store.scope s).errors = happened.filterMap (Occurrence.failureIn s) := by
    intro s
    rw [hsound.told, hcourse, (errors_told (hsilent.imp fun h => h.1) seed s).1,
      filterMap_failureIn_concat, outcome.closing_of.1, ite_self, Option.toList_none,
      List.append_nil]
  have hfails : Outcome.status outcome ≠ .completed →
      ∃ f id, outcome = .error f ∧ f.node? = some id ∧
        (m.store.scope m.root).errors = [(id, f.recordText)] := by
    intro hne
    rcases houtcome : outcome with f | ⟨⟩
    · have hf : f ≠ .cancelled := by
        rintro rfl
        exact h (Outcome.status_cancelled.2 houtcome)
      obtain ⟨id, hid, hfail⟩ := hstops.failure f houtcome hf
      exact ⟨f, id, rfl, hid, by rw [hsound.root, herrors, hfail]⟩
    · exact absurd (Outcome.status_completed.2 houtcome) hne
  have hroot : (m.store.scope m.root).errors = [] → Outcome.status outcome = .completed := by
    intro hnone
    by_contra hne
    obtain ⟨f, id, -, -, hfail⟩ := hfails hne
    rw [hnone] at hfail
    cases hfail
  constructor
  case halt =>
    refine fun hhalt => ⟨fun hdone s _ => ?_, fun hnone => hroot (hnone _ .root).1⟩
    have hok := Outcome.status_completed.1 hdone
    have hflawless := hstops.flawless hhalt hok
    refine ⟨?_, fun _ => ?_⟩
    · rw [herrors]
      exact List.filterMap_eq_nil_iff.2 fun o ho => Option.eq_none_iff_forall_ne_some.2
        fun e he => (hflawless o ho).1 ⟨s, e, he⟩
    · rw [hsound.told, hcourse]
      refine error_told (fun o ho e heq => ?_) seed
      rcases List.mem_append.1 ho with ho | ho
      · -- Within the run no scope was closed with an error, and the run itself ended well.
        have := (hflawless o ho).2
        rw [heq] at this
        cases this
      · rw [List.mem_singleton.1 ho, hok] at heq
        cases heq
  case proceed =>
    refine fun _ => ⟨fun hdone => ?_, hroot⟩
    rw [hsound.root, herrors]
    exact hstops.clean (Outcome.status_completed.1 hdone)
  case halted =>
    intro hhalted
    exact hfails (by rw [hhalted]; simp)

/-- The failure of the second iteration halts the run, which is not cancelled. -/
theorem agrees_nestedRun :
    Outcome.failure? (nestedRun.start (.scheduled ∅ nestedEvents)).1 =
        some (.iterationFailed "1" 2 (.actionFailed "2" (.failed "u" "busy"))) ∧
      Outcome.status (nestedRun.start (.scheduled ∅ nestedEvents)).1 ≠ .cancelled ∧
      Outcome.Agrees .halt (nestedRun.start (.scheduled ∅ nestedEvents)).1
        (nestedRun.start (.scheduled ∅ nestedEvents)).2 := by
  have hne : Outcome.status (nestedRun.start (.scheduled ∅ nestedEvents)).1 ≠ .cancelled := by
    decide +kernel
  exact ⟨by decide +kernel, hne, agrees_start nestedRun ∅ nestedEvents hne⟩

end Runbook
