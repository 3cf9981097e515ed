import Runbook.Run
import Runbook.Proofs.Dict

namespace Runbook

/-!
# Running a graph — the course of a run

All that happens in a run is on its journal.  This file reads the journal as the course of the run,
the earliest first, and says what a machine owes to it:

* `Machine.course` — everything that happened, in order;
* `Scope.told` — the scope that a course tells of: the changes made to it, one after the other;
* `Answered` — every answer on a journal is the one of the backend, given the calls before it;
* `Machine.Sound` — the scopes of a machine are the ones its course tells of, its calls are counted
  and answered by the backend;
* `Extends` — what a stretch of a run does to a machine: it adds to the course and keeps the machine
  sound.  Stretches that follow each other make one (`Extends.trans`).
-/

/-! ### What an occurrence does -/

namespace Occurrence

/-- The changes of a scope that an occurrence makes. -/
def changesOf (scope : ScopeId) : Occurrence → List Change
  | changed s c => if s = scope then [c] else []
  | published scopes values => List.replicate (scopes.count scope) (.publish values)
  | _ => []

/-- Whether a scope is opened. -/
def opens : Occurrence → Bool
  | opened _ => true
  | _ => false

/-- What exporting values to some scopes puts on the journal. -/
def publication (scopes : List ScopeId) (values : Dict String Value) : List Occurrence :=
  if values.isEmpty then [] else [.published scopes values]

/-- Publishing is one kind of occurrence, once for each level. -/
theorem eq_of_mem_publication {scopes : List ScopeId} {values : Dict String Value} {o : Occurrence}
    (h : o ∈ publication scopes values) : o = .published scopes values := by
  unfold publication at h
  by_cases hempty : values.isEmpty
  · rw [if_pos hempty] at h
    exact absurd h List.not_mem_nil
  · rwa [if_neg hempty, List.mem_singleton] at h

end Occurrence

/-- What a scope holds before any change.  Only the scope of the whole runbook knows the alert. -/
def Scope.initial (seed : Dict String Value) (scope : ScopeId) : Scope :=
  if scope = 0 then { seed := seed } else {}

/-- The scope that a course tells of. -/
def Scope.told (seed : Dict String Value) (course : List Occurrence) (scope : ScopeId) : Scope :=
  (course.flatMap (Occurrence.changesOf scope)).foldl Scope.apply (.initial seed scope)

/-- What later occurrences tell of a scope is applied to what the earlier ones told. -/
theorem Scope.told_append (seed : Dict String Value) (course later : List Occurrence)
    (scope : ScopeId) :
    Scope.told seed (course ++ later) scope =
      (later.flatMap (Occurrence.changesOf scope)).foldl Scope.apply (.told seed course scope) := by
  rw [Scope.told, List.flatMap_append, List.foldl_append, Scope.told]

/-- Every answer on a journal, the latest first, is the one of the backend, given the calls that
    were answered before it. -/
def Answered (backend : Backend) : List Occurrence → Prop
  | [] => True
  | .called _ _ call answer :: before =>
    answer = backend (before.filterMap Occurrence.call?) call ∧ Answered backend before
  | _ :: before => Answered backend before

/-- `Answered` of a journal holds of what was there earlier. -/
theorem Answered.of_append {backend : Backend} {later before : List Occurrence}
    (h : Answered backend (later ++ before)) : Answered backend before := by
  induction later with
  | nil => exact h
  | cons o later ih =>
    refine ih ?_
    cases o with
    | called => exact h.2
    | _ => exact h

/-! ### Stores -/

/-- The end of a loop changes nothing but the records of loops. -/
theorem Scope.change_finishLoop (s : Scope) (id : String) :
    ∃ loops, s.change (.finishLoop id) = { s with loops := loops } := by
  show ∃ loops, (if s.loops.contains id then _ else s) = _
  by_cases hid : s.loops.contains id
  · exact ⟨_, if_pos hid⟩
  · exact ⟨s.loops, if_neg hid⟩

namespace Store

/-- Changing a scope adds none. -/
@[simp]
theorem size_apply (s : Store) (id : ScopeId) (c : Change) : (s.apply id c).size = s.size := by
  simp [size, apply]

/-- Opening a scope adds one. -/
@[simp]
theorem size_openIn (s : Store) (parent : ScopeId) : (s.openIn parent).2.size = s.size + 1 := by
  simp [size, openIn]

/-- A change of one scope leaves the others alone, whether or not the scope is there. -/
theorem scope_apply_of_ne (s : Store) {id scope : ScopeId} (h : id ≠ scope) (c : Change) :
    (s.apply id c).scope scope = s.scope scope := by
  unfold Store.scope apply
  simp only [Array.getD_eq_getD_getElem?, Array.getElem?_modify]
  rw [if_neg h]

/-- A change of a scope that is there changes it and leaves the others alone. -/
theorem scope_apply {s : Store} {id : ScopeId} (h : id < s.size) (c : Change) (scope : ScopeId) :
    (s.apply id c).scope scope =
      if id = scope then (s.scope scope).apply c else s.scope scope := by
  by_cases hid : id = scope
  · subst hid
    unfold size at h
    unfold Store.scope apply
    rw [if_pos rfl, Array.getD_eq_getD_getElem?, Array.getD_eq_getD_getElem?,
      Array.getElem?_modify, if_pos rfl, Array.getElem?_eq_getElem h]
    rfl
  · rw [if_neg hid, scope_apply_of_ne s hid]

/-- Opening a scope leaves the others alone.  The new one is empty, like one that is not there. -/
@[simp]
theorem scope_openIn (s : Store) (parent scope : ScopeId) :
    (s.openIn parent).2.scope scope = s.scope scope := by
  unfold Store.scope openIn
  simp only [Array.getD_eq_getD_getElem?, Array.getElem?_push]
  by_cases h : scope = s.cells.size
  · -- The new scope was not there before, which counts as empty too.
    rw [if_pos h, h, Array.getElem?_eq_none (Nat.le_refl _)]
    rfl
  · rw [if_neg h]

/-- Writing values into scopes, one after the other. -/
theorem scope_publishAll {scopes : List ScopeId} {s : Store} (h : ∀ id ∈ scopes, id < s.size)
    (values : Dict String Value) (scope : ScopeId) :
    (scopes.foldr (fun id store => store.apply id (.publish values)) s).size = s.size ∧
      (scopes.foldr (fun id store => store.apply id (.publish values)) s).scope scope =
        (List.replicate (scopes.count scope) (Change.publish values)).foldl Scope.apply
          (s.scope scope) := by
  induction scopes with
  | nil => exact ⟨rfl, rfl⟩
  | cons id rest ih =>
    obtain ⟨hsize, hscope⟩ := ih fun id hid => h id (List.mem_cons_of_mem _ hid)
    have hid : id < (rest.foldr (fun id store => store.apply id (.publish values)) s).size := by
      rw [hsize]
      exact h id List.mem_cons_self
    rw [List.foldr_cons, size_apply, scope_apply hid, hscope, List.count_cons]
    refine ⟨hsize, ?_⟩
    by_cases heq : id = scope
    · -- The changes are all the same, so the last one may be taken for the first.
      rw [if_pos heq, if_pos (by simpa using heq), List.replicate_succ', List.foldl_append]
      rfl
    · rw [if_neg heq, if_neg (by simpa using heq), Nat.add_zero]

end Store

/-! ### Machines and their course -/

namespace Machine

/-- Everything that happened, the earliest first. -/
def course (m : Machine) : List Occurrence := m.journal.reverse

/-- The scopes of a stack are there. -/
def Holds (m : Machine) (stack : Stack) : Prop := ∀ s ∈ stack.scopes, s < m.store.size

/-- A change adds no scope. -/
@[simp]
theorem size_change (m : Machine) (scope : ScopeId) (c : Change) :
    (m.change scope c).store.size = m.store.size :=
  Store.size_apply _ _ _

/-- The journal has the newest occurrence first, the course has it last. -/
theorem course_of_journal {m m' : Machine} {o : Occurrence} (h : m'.journal = o :: m.journal) :
    m'.course = m.course ++ [o] := by
  rw [course, course, h, List.reverse_cons]

/-- Its scopes are the ones its course tells of; its calls are counted and answered by the
    backend. -/
structure Sound (backend : Backend) (seed : Dict String Value) (m : Machine) : Prop where
  /-- The scope of the whole runbook is the one that was opened first. -/
  root : m.root = 0
  told : ∀ scope, m.store.scope scope = .told seed m.course scope
  executions : m.executions = m.calls.length
  answered : Answered backend m.journal

/-- A machine that differs in the events to come is as sound. -/
theorem Sound.reschedule {backend : Backend} {seed : Dict String Value} {m : Machine}
    (h : m.Sound backend seed) (events : List Event) :
    ({ m with schedule := events } : Machine).Sound backend seed :=
  ⟨h.root, h.told, h.executions, h.answered⟩

/-- A limit that ends a wait makes no difference to what is known of it. -/
theorem Sound.elapse {backend : Backend} {seed : Dict String Value} {m : Machine}
    (h : m.Sound backend seed) (limit : Nat) (events : List Event) :
    (m.elapse limit events).Sound backend seed :=
  ⟨h.root, h.told, h.executions, h.answered⟩

/-- The machine before the first run, with the events to come. -/
def scheduled (seed : Dict String Value) (events : List Event) : Machine :=
  { fresh seed with schedule := events }

/-- Nothing has happened to a scheduled machine. -/
theorem course_scheduled (seed : Dict String Value) (events : List Event) :
    (scheduled seed events).course = [] := rfl

/-- A scheduled machine is sound: its journal is empty and its only scope is new. -/
theorem sound_scheduled (backend : Backend) (seed : Dict String Value) (events : List Event) :
    (scheduled seed events).Sound backend seed where
  root := rfl
  told scope := by
    cases scope with
    | zero => rfl
    | succ scope =>
      rw [course_scheduled, Scope.told, List.flatMap_nil, List.foldl_nil, Scope.initial,
        if_neg (Nat.succ_ne_zero scope)]
      rfl
  executions := rfl
  answered := trivial

end Machine

/-! ### Stretches of a run -/

open Machine

/-- What a stretch of a run does to a machine, `happened` being what happens in it. -/
structure Extends (backend : Backend) (m : Machine) (happened : List Occurrence) (m' : Machine) :
    Prop where
  root : m'.root = m.root
  size : m'.store.size = m.store.size + happened.countP Occurrence.opens
  course : m'.course = m.course ++ happened
  sound : ∀ seed, m.Sound backend seed → m'.Sound backend seed

namespace Extends

variable {backend : Backend} {m m₁ m' : Machine} {happened before after : List Occurrence}

/-- Nothing happens. -/
theorem refl (m : Machine) : Extends backend m [] m :=
  ⟨rfl, rfl, (List.append_nil _).symm, fun _ h => h⟩

/-- What happens in two stretches, one after the other. -/
theorem trans (h : Extends backend m before m₁) (h' : Extends backend m₁ after m') :
    Extends backend m (before ++ after) m' where
  root := h'.root.trans h.root
  size := by rw [h'.size, h.size, List.countP_append, Nat.add_assoc]
  course := by rw [h'.course, h.course, List.append_assoc]
  sound seed hm := h'.sound seed (h.sound seed hm)

/-- Scopes are only added. -/
theorem size_le (h : Extends backend m happened m') : m.store.size ≤ m'.store.size :=
  h.size ▸ Nat.le_add_right _ _

/-- What happened in a stretch is what became of each scope. -/
theorem scope {seed : Dict String Value} (h : Extends backend m happened m')
    (hm : m.Sound backend seed) (s : ScopeId) :
    m'.store.scope s =
      (happened.flatMap (Occurrence.changesOf s)).foldl Scope.apply (m.store.scope s) := by
  rw [(h.sound seed hm).told, h.course, Scope.told_append, ← hm.told]

/-- What is there stays there. -/
theorem holds (h : Extends backend m happened m') {stack : Stack} (hs : m.Holds stack) :
    m'.Holds stack :=
  fun s hmem => Nat.lt_of_lt_of_le (hs s hmem) h.size_le

/-- Planning events is no occurrence. -/
theorem reschedule (m : Machine) (events : List Event) :
    Extends backend m [] { m with schedule := events } :=
  ⟨rfl, rfl, (List.append_nil _).symm, fun _ h => h.reschedule events⟩

/-- The passing of time is no occurrence. -/
theorem elapse (m : Machine) (limit : Nat) (events : List Event) :
    Extends backend m [] (m.elapse limit events) :=
  ⟨rfl, rfl, (List.append_nil _).symm, fun _ h => h.elapse limit events⟩

/-- One thing that happens and is no call. -/
theorem of_journal {o : Occurrence} (h : m'.journal = o :: m.journal) (ho : o.call? = none)
    (hroot : m'.root = m.root) (hsize : m'.store.size = m.store.size + [o].countP Occurrence.opens)
    (hexecutions : m'.executions = m.executions)
    (hscope : ∀ s, m'.store.scope s = (o.changesOf s).foldl Scope.apply (m.store.scope s)) :
    Extends backend m [o] m' := by
  refine ⟨hroot, hsize, course_of_journal h, fun seed hm =>
    ⟨hroot.trans hm.root, fun s => ?_, ?_, ?_⟩⟩
  · rw [course_of_journal h, Scope.told_append, ← hm.told, hscope, List.flatMap_singleton]
  · -- Neither the count of calls nor the calls change.
    rw [hexecutions, hm.executions, calls, calls, h, List.filterMap_cons_none ho]
  · rw [h]
    cases o with
    | called => exact absurd ho (by simp [Occurrence.call?])
    | _ => exact hm.answered

/-- A change of a scope. -/
theorem change {scope : ScopeId} (h : scope < m.store.size) (c : Change) :
    Extends backend m [.changed scope c] (m.change scope c) := by
  refine of_journal rfl rfl rfl (Store.size_apply _ _ _) rfl fun s => ?_
  show (m.store.apply scope c).scope s = _
  rw [Store.scope_apply h]
  by_cases hs : scope = s <;> simp [Occurrence.changesOf, hs]

/-- Exporting values to all scopes of a stack. -/
theorem publish {stack : Stack} (h : m.Holds stack) (values : Dict String Value) :
    Extends backend m (Occurrence.publication stack.scopes values) (m.publish stack values) := by
  unfold Occurrence.publication Machine.publish
  by_cases hempty : values.isEmpty
  · rw [if_pos hempty, if_pos hempty]
    exact .refl m
  · rw [if_neg hempty, if_neg hempty, Stack.publish, if_neg hempty]
    have hstore := Store.scope_publishAll h values
    exact of_journal rfl rfl rfl (hstore 0).1 rfl fun s => (hstore s).2

/-- Cancelling the tree of scopes. -/
theorem cancel (m : Machine) : Extends backend m [.cancelled] m.cancel :=
  of_journal rfl rfl rfl rfl rfl fun _ => rfl

/-- Putting a wait on record. -/
theorem recordWait (m : Machine) (scope : ScopeId) (site : Site) (token : String) :
    Extends backend m [.interrupted scope site token] (m.recordWait scope site token) :=
  of_journal rfl rfl rfl rfl rfl fun _ => rfl

/-- Opening a scope on top of a stack. -/
theorem pushChild (m : Machine) (stack : Stack) :
    Extends backend m [.opened m.store.size] (m.pushChild stack).2 :=
  of_journal rfl rfl rfl (Store.size_openIn _ _) rfl (Store.scope_openIn m.store stack.top)

/-- A call that the backend answers. -/
theorem call (m : Machine) (scope : ScopeId) (node : String) (c : ActionCall) :
    Extends backend m [.called scope node c (backend m.calls c)]
      (m.countExecution.recordCall scope node c (backend m.calls c)) := by
  refine ⟨rfl, rfl, course_of_journal rfl, fun seed hm => ?_⟩
  refine ⟨hm.root, fun s => ?_, congrArg Nat.succ hm.executions, rfl, hm.answered⟩
  rw [course_of_journal (m := m) (o := .called scope node c (backend m.calls c)) rfl,
    Scope.told_append, ← hm.told]
  rfl

end Extends

end Runbook
