import Runbook.Proofs.Run.Kept
import Runbook.Proofs.Run.Sessions

namespace Runbook

/-!
# Running a graph — one tree

A tree of scopes is cancelled as a whole.  All scopes that a run opens are in the tree of the scope
of the whole runbook, so none of them escapes when that tree is cancelled, and it stays cancelled.

* `Machine.OneTree` — all scopes are in one tree;
* `Machine.Regular` — that it is so, with what the journal and the schedule say about cancelling;
* `Machine.kept_regular` — nothing that a run does takes this away (`Machine.Kept`);
* `regular_session` — hence it holds after every session.
-/

/-- All scopes are in one tree. -/
def Machine.OneTree (m : Machine) : Prop := ∀ s, m.store.tree s = 0

namespace Store

/-- `Store.apply` changes what is in a scope, and not the tree that it is in. -/
theorem tree_apply (s : Store) (id : ScopeId) (c : Change) (scope : ScopeId) :
    (s.apply id c).tree scope = s.tree scope := by
  unfold tree apply
  simp only [Array.getD_eq_getD_getElem?, Array.getElem?_modify]
  by_cases hid : id = scope
  · rw [if_pos hid]
    cases s.cells[scope]? <;> rfl
  · rw [if_neg hid]

/-- `Store.openIn` puts the new scope into the tree of its parent. -/
theorem tree_openIn {s : Store} (h : ∀ scope, s.tree scope = 0) (parent scope : ScopeId) :
    (s.openIn parent).2.tree scope = 0 := by
  have hold := h scope
  unfold tree at hold
  unfold tree openIn
  simp only [Array.getD_eq_getD_getElem?, Array.getElem?_push] at hold ⊢
  by_cases hscope : scope = s.cells.size
  · rw [if_pos hscope]
    exact h parent
  · rwa [if_neg hscope]

/-- `Stack.publish` applies one change to each scope of a stack, so it leaves the trees alone. -/
theorem tree_publishAll (scopes : List ScopeId) (s : Store) (values : Dict String Value)
    (scope : ScopeId) :
    (scopes.foldr (fun id store => store.apply id (.publish values)) s).tree scope =
      s.tree scope := by
  induction scopes with
  | nil => rfl
  | cons id rest ih => rw [List.foldr_cons, tree_apply, ih]

/-- `Store.cancel` is the only one to cancel a tree. -/
theorem cancelled_publishAll (scopes : List ScopeId) (s : Store) (values : Dict String Value) :
    (scopes.foldr (fun id store => store.apply id (.publish values)) s).cancelled =
      s.cancelled := by
  induction scopes with
  | nil => rfl
  | cons id rest ih => exact ih

end Store

/-- What every run keeps: there is one tree of scopes, it is cancelled if the journal says so, and
    all events to come are among the given ones. -/
structure Machine.Regular (events : List Event) (m : Machine) : Prop where
  oneTree : m.OneTree
  cancelled : .cancelled ∈ m.journal → 0 ∈ m.store.cancelled
  schedule : m.schedule ⊆ events

namespace Machine

variable {events : List Event} {m : Machine}

/-- `Stack.isCancelled` looks at the tree of a scope, and there is only one. -/
theorem Regular.isCancelled (h : m.Regular events) (hc : .cancelled ∈ m.journal) (stack : Stack) :
    stack.isCancelled m.store = true := by
  show m.store.cancelled.contains (m.store.tree stack.top) = true
  rw [h.oneTree]
  exact List.contains_iff_mem.2 (h.cancelled hc)

/-- The part of `Machine.Regular` that says something of the scopes alone. -/
theorem Regular.of_step {m' : Machine} {o : Occurrence} (h : m.Regular events)
    (htree : m'.OneTree) (hjournal : m'.journal = o :: m.journal) (ho : o ≠ .cancelled)
    (hcancelled : m'.store.cancelled = m.store.cancelled) (hschedule : m'.schedule = m.schedule) :
    m'.Regular events := by
  refine ⟨htree, fun hc => ?_, hschedule ▸ h.schedule⟩
  rw [hjournal] at hc
  exact hcancelled ▸ h.cancelled ((List.mem_cons.1 hc).resolve_left fun heq => ho heq.symm)

/-- `Machine.Regular` is `Machine.Kept`: only `Machine.cancel` cancels the tree, and puts it on the
    journal. -/
theorem kept_regular (events : List Event) : Machine.Kept (Machine.Regular events) where
  change h s c := h.of_step (fun t => (Store.tree_apply _ _ _ t).trans (h.oneTree t)) rfl
    (by simp) rfl rfl
  publish {m} h stack values := by
    unfold Machine.publish
    by_cases hempty : values.isEmpty
    · rw [if_pos hempty]
      exact h
    · rw [if_neg hempty, Stack.publish, if_neg hempty]
      exact h.of_step (fun t => (Store.tree_publishAll _ _ _ t).trans (h.oneTree t)) rfl (by simp)
        (Store.cancelled_publishAll _ _ _) rfl
  cancel {m} h := by
    refine ⟨h.oneTree, fun _ => ?_, h.schedule⟩
    show 0 ∈ m.store.tree m.root :: m.store.cancelled
    rw [h.oneTree]
    exact List.mem_cons_self
  pushChild h stack := h.of_step (Store.tree_openIn h.oneTree stack.top) rfl (by simp) rfl rfl
  recordCall h _ _ _ _ := h.of_step h.oneTree rfl (by simp) rfl rfl
  recordWait h _ _ _ := h.of_step h.oneTree rfl (by simp) rfl rfl
  reschedule h _ hsub := ⟨h.oneTree, h.cancelled, List.Subset.trans hsub h.schedule⟩
  elapse h _ _ hsub := ⟨h.oneTree, h.cancelled, List.Subset.trans hsub h.schedule⟩

/-- No event to come is one of any events but those that are to come. -/
theorem Regular.reschedule (h : m.Regular events) (others : List Event) :
    ({ m with schedule := others } : Machine).Regular others :=
  ⟨h.oneTree, h.cancelled, List.Subset.refl _⟩

end Machine

/-! ### Sessions -/

theorem regular_undergo {x : Execution} {m : Machine} (h : m.Regular m.schedule)
    (hroot : m.root < m.store.size) (d : Deed) :
    (x.undergo m d).Regular (x.undergo m d).schedule := by
  cases d with
  | start events =>
    obtain ⟨happened, hstarted⟩ := started_start x (m := { m with schedule := events }) hroot
    obtain ⟨m₁, hexec, hend⟩ := hstarted.exec
    have hundergo : x.undergo m (.start events) = _ := hend
    rw [hundergo]
    have hrun := (Machine.kept_regular events).exec hexec (h.reschedule events)
    exact ((Machine.kept_regular events).change hrun _ _).reschedule _
  | outside effect => exact ((Machine.kept_regular _).perform h effect).reschedule _

/-- **One tree.** After a session there is one tree of scopes, whatever events come next. -/
theorem regular_session (x : Execution) (seed : Dict String Value) (deeds : List Deed)
    (events : List Event) :
    ({ x.session seed deeds with schedule := events } : Machine).Regular events := by
  have hsession : (x.session seed deeds).Regular (x.session seed deeds).schedule := by
    refine session_induction ⟨fun s => ?_, fun hc => absurd hc List.not_mem_nil,
      List.Subset.refl _⟩ (fun _ hm h d => regular_undergo h hm.root d) deeds
    cases s <;> rfl
  exact hsession.reschedule events

end Runbook
