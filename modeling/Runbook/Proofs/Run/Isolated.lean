import Runbook.Proofs.Run.Rounds
import Runbook.Proofs.Run.Twins

namespace Runbook

/-!
# Running a graph — iterations of loops are isolated

Nothing of an iteration is seen by the others, unless the body exports.  So what an iteration leaves
behind does not depend on which iterations there are besides, and in which order.

* `Looped` — what rounds of a loop do to a machine: the loop's record goes on, and new scopes are
  opened;
* `twins_round` — two rounds over the same element, in surroundings that look alike to the body;
* `looped_iterateAll` — all rounds of a loop;
* `Store.SameBelow` — two scopes that are the same but for their numbers, and so are all below;
* `isolated_loop` — the same element leaves the same behind in two runs of a loop.
-/

open Run

/-! ### Machines on which a loop goes on -/

/-- A frame may run on a machine, with nothing to come and nothing cancelled. -/
structure Machine.Calm (m : Machine) (frame : Frame) : Prop where
  ready : m.Ready frame
  schedule : m.schedule = []
  calm : frame.stack.isCancelled m.store = false

/-- A change of the record of a loop. -/
def Change.OfLoop : Change → Prop
  | startLoop .. | startIteration .. | finishLoop _ | failLoop .. => True
  | _ => False

/-- The records of loops do not matter to what is looked up. -/
theorem Scope.lookup_apply_ofLoop (s : Scope) {c : Change} (hc : c.OfLoop) (token : String) :
    (s.apply c).lookup token = s.lookup token := by
  cases c with
  | startLoop | startIteration | failLoop => exact lookup_congr rfl rfl fun _ => rfl
  | finishLoop id =>
    obtain ⟨loops, hloops⟩ := s.change_finishLoop id
    rw [apply, hloops]
    exact lookup_congr rfl rfl fun _ => rfl
  | _ => exact absurd hc fun hfalse => hfalse

/-- What a loop does in its own scope are `changes` of its record.  Else it opens new scopes. -/
structure Looped (frame : Frame) (m : Machine) (changes : List Change) (m' : Machine) : Prop where
  loops : ∀ c ∈ changes, c.OfLoop
  size : m.store.size ≤ m'.store.size
  own : m'.store.scope frame.top = changes.foldl Scope.apply (m.store.scope frame.top)
  others : ∀ s < m.store.size, s ≠ frame.top → m'.store.scope s = m.store.scope s
  calm : m'.Calm frame

namespace Looped

variable {frame : Frame} {m m₁ m' : Machine} {changes before after : List Change}

/-- Nothing happens. -/
theorem refl (hm : m.Calm frame) : Looped frame m [] m :=
  ⟨fun _ hc => absurd hc List.not_mem_nil, Nat.le_refl _, rfl, fun _ _ _ => rfl, hm⟩

/-- Two stretches in a row. -/
theorem trans (h : Looped frame m before m₁) (h' : Looped frame m₁ after m') :
    Looped frame m (before ++ after) m' where
  loops c hc := (List.mem_append.1 hc).elim (h.loops c) (h'.loops c)
  size := Nat.le_trans h.size h'.size
  own := by rw [h'.own, h.own, List.foldl_append]
  others s hs hne := by
    rw [h'.others s (Nat.lt_of_lt_of_le hs h.size) hne, h.others s hs hne]
  calm := h'.calm

/-- A change of the record of the loop. -/
theorem change (hm : m.Calm frame) {c : Change} (hc : c.OfLoop) :
    Looped frame m [c] (m.change frame.top c) where
  loops c' hc' := List.mem_singleton.1 hc' ▸ hc
  size := Nat.le_of_eq (Machine.size_change m frame.top c).symm
  own := (Store.scope_apply hm.ready.top c frame.top).trans (if_pos rfl)
  others s _ hne := (Store.scope_apply hm.ready.top c s).trans (if_neg hne.symm)
  calm := by
    have hext : Extends (fun _ _ => .ok {}) m _ (m.change frame.top c) := .change hm.ready.top c
    exact ⟨hext.ready hm.ready, hm.schedule, (Store.isCancelled_apply _ _ _ _).trans hm.calm⟩

/-- What nodes look up stays the same while a loop goes on around them. -/
theorem lookup_eq (h : Looped frame m changes m') (hm : m.Ready frame) (token : String) :
    frame.stack.lookup m'.store token = frame.stack.lookup m.store token := by
  refine findSome?_congr fun s hs => ?_
  by_cases heq : s = frame.top
  · rw [heq, h.own]
    have hloops := h.loops
    clear h
    generalize m.store.scope frame.top = scope
    induction changes generalizing scope with
    | nil => rfl
    | cons c rest ih =>
      rw [List.foldl_cons, ih fun c' hc' => hloops c' (List.mem_cons_of_mem _ hc'),
        Scope.lookup_apply_ofLoop scope (hloops c List.mem_cons_self)]
  · rw [h.others s (hm.stack s hs) heq]

end Looped

/-! ### Opening an iteration -/

/-- A new scope that knows the element of its iteration. -/
def Scope.holding (itemAs : Option String) (v : Value) : Scope :=
  match itemAs with
  | some name => ({} : Scope).apply (.publish (.singleton name v))
  | none => {}

variable {x : Execution} {frame frame' : Frame} {m m' : Machine}

/-- Every scope after an iteration was opened: the new one, the one of the loop, and all others. -/
theorem scope_openIteration (hm : m.Ready frame) (id : String) (itemAs : Option String)
    (index : Nat) (v : Value) (s : ScopeId) :
    (m.openIteration frame id itemAs index v).store.scope s =
      if s = m.store.size then .holding itemAs v
      else if s = frame.top then
        (m.store.scope s).apply (.startIteration id index v m.store.size)
      else m.store.scope s := by
  have hsize : (m.pushChild frame.stack).2.store.size = m.store.size + 1 := Store.size_openIn _ _
  have hold : (m.pushChild frame.stack).2.store.scope s = m.store.scope s :=
    Store.scope_openIn _ _ _
  have htop : frame.top < (m.pushChild frame.stack).2.store.size := by
    rw [hsize]
    exact Nat.lt_succ_of_lt hm.top
  have hstart : ((m.pushChild frame.stack).2.change frame.top
      (.startIteration id index v m.store.size)).store.scope s =
        if s = m.store.size then {}
        else if s = frame.top then
          (m.store.scope s).apply (.startIteration id index v m.store.size)
        else m.store.scope s := by
    refine (Store.scope_apply htop _ s).trans ?_
    rw [hold]
    by_cases hnew : s = m.store.size
    · -- Nothing has happened yet in the new scope.
      rw [if_pos hnew, if_neg (hnew ▸ Nat.ne_of_lt hm.top), hnew,
        Store.scope_of_size_le (Nat.le_refl _)]
    · rw [if_neg hnew]
      by_cases heq : s = frame.top
      · rw [if_pos heq, if_pos heq.symm]
      · rw [if_neg heq, if_neg fun h => heq h.symm]
  -- The item is published to the new scope only.
  unfold Machine.openIteration
  cases itemAs with
  | none => exact hstart
  | some name =>
    have hthere : m.store.size < ((m.pushChild frame.stack).2.change frame.top
        (.startIteration id index v m.store.size)).store.size := by
      rw [Machine.size_change, hsize]
      exact Nat.lt_succ_self _
    refine (Store.scope_apply hthere _ s).trans ?_
    rw [hstart]
    by_cases hnew : s = m.store.size
    · rw [if_pos hnew, if_pos hnew, if_pos hnew.symm]
      rfl
    · rw [if_neg hnew, if_neg hnew, if_neg fun h => hnew h.symm]

/-- The new scope is cancelled if the one around it is. -/
theorem isCancelled_openIteration (m : Machine) (frame : Frame) (id : String)
    (itemAs : Option String) (index : Nat) (v : Value) (s : ScopeId) :
    (m.openIteration frame id itemAs index v).store.isCancelled s =
      if s = m.store.size then m.store.isCancelled frame.top else m.store.isCancelled s := by
  have hopen : ((m.pushChild frame.stack).2.change frame.top
      (.startIteration id index v m.store.size)).store.isCancelled s =
        if s = m.store.size then m.store.isCancelled frame.top else m.store.isCancelled s :=
    (Store.isCancelled_apply _ _ _ s).trans (Store.isCancelled_openIn _ _ s)
  unfold Machine.openIteration
  cases itemAs with
  | none => exact hopen
  | some name => exact (Store.isCancelled_apply _ _ _ s).trans hopen

/-- Opening an iteration does not change what is looked up around it. -/
theorem lookup_openIteration (hm : m.Calm frame) (id : String) (itemAs : Option String)
    (index : Nat) (v : Value) (token : String) :
    frame.stack.lookup (m.openIteration frame id itemAs index v).store token =
      frame.stack.lookup m.store token := by
  refine findSome?_congr fun s hs => ?_
  rw [scope_openIteration hm.ready, if_neg (Nat.ne_of_lt (hm.ready.stack s hs))]
  by_cases heq : s = frame.top
  · rw [if_pos heq]
    exact Scope.lookup_apply_ofLoop _ (c := .startIteration id index v m.store.size) trivial token
  · rw [if_neg heq]

/-- A machine on which an iteration was opened. -/
theorem above_openIteration (hm : m.Calm frame) (id : String) (itemAs : Option String)
    (index : Nat) (v : Value) :
    (m.openIteration frame id itemAs index v).Above m.store.size
      (m.openIteration frame id itemAs index v) 1 where
  size := size_openIteration m frame id itemAs index v
  schedule := by
    cases itemAs <;> exact hm.schedule
  below _ _ := ⟨rfl, rfl⟩
  calm d hd := by
    obtain rfl : d = 0 := Nat.lt_one_iff.1 hd
    rw [isCancelled_openIteration, Nat.add_zero, if_pos rfl]
    exact hm.calm
  closed d := by
    have hempty : Scope.Spans (fun t => ∃ e < 1, t = m.store.size + e) {} :=
      fun _ _ hr => by cases hr
    rw [scope_openIteration hm.ready]
    by_cases hd : m.store.size + d = m.store.size
    · rw [if_pos hd]
      cases itemAs with
      | none => exact hempty
      | some name => exact hempty.apply fun _ _ _ _ heq => by cases heq
    · have hle := Nat.le_add_right m.store.size d
      rw [if_neg hd, if_neg (Nat.ne_of_gt (Nat.lt_of_lt_of_le hm.ready.top hle)),
        Store.scope_of_size_le hle]
      exact hempty

/-- A scope that only holds an item has no numbers of scopes in it. -/
theorem relocate_holding (f : ScopeId → ScopeId) (itemAs : Option String) (v : Value) :
    (Scope.holding itemAs v).relocate f = .holding itemAs v := by
  cases itemAs <;> rfl

/-- Two machines on which an iteration over the same element was opened are twins. -/
theorem twins_openIteration (hm : m.Calm frame) (hm' : m'.Calm frame') (id id' : String)
    (itemAs : Option String) (index index' : Nat) (v : Value) :
    Twins m.store.size m'.store.size (m.openIteration frame id itemAs index v)
      (m'.openIteration frame' id' itemAs index' v) 1
      (m.openIteration frame id itemAs index v) (m'.openIteration frame' id' itemAs index' v) where
  above := above_openIteration hm id itemAs index v
  above' := above_openIteration hm' id' itemAs index' v
  scopes d := by
    rw [scope_openIteration hm.ready, scope_openIteration hm'.ready]
    by_cases hd : d = 0
    · rw [if_pos (by rw [hd, Nat.add_zero]), if_pos (by rw [hd, Nat.add_zero]), relocate_holding]
    · have hne : ∀ n : Nat, n + d ≠ n := fun n heq => hd (Nat.add_eq_left.1 heq)
      have hle := Nat.le_add_right m.store.size d
      have hle' := Nat.le_add_right m'.store.size d
      rw [if_neg (hne _), if_neg (hne _),
        if_neg (Nat.ne_of_gt (Nat.lt_of_lt_of_le hm.ready.top hle)),
        if_neg (Nat.ne_of_gt (Nat.lt_of_lt_of_le hm'.ready.top hle')),
        Store.scope_of_size_le hle, Store.scope_of_size_le hle']
      rfl

/-! ### What is the same -/

/-- Two scopes are the same, and so are the scopes of iterations below, but that those of the one
    are numbered from `t` on, and those of the other from `t'` on. -/
def Store.SameBelow (store store' : Store) (t t' : ScopeId) : Prop :=
  ∀ s, store.InTree t s → t ≤ s ∧
    store'.scope (shift t t' s) = (store.scope s).relocate (shift t t')

/-- A loop has an iteration on record under a number. -/
def Machine.Lists (m : Machine) (s : ScopeId) (id : String) (index : Nat) (i : Iteration) : Prop :=
  ∃ r, (m.store.scope s).loops.get? id = some r ∧ r.history.get? index = some i

/-- Iterations stand in the history at their positions, counted from 1. -/
theorem get?_historyOf {its : List Iteration} {p : Nat} {i : Iteration} (h : its[p]? = some i) :
    (historyOf its).get? (p + 1 : Nat) = some i := by
  rw [← Dict.mem_entries, entries_historyOf]
  exact List.mem_map.2 ⟨(i, p + 1), List.mem_zipIdx_iff_le_and_getElem?_sub.2
    ⟨Nat.le_add_left 1 p, by rwa [Nat.add_sub_cancel]⟩, rfl⟩

/-- A loop that is run from `m` to `final` goes through a round for an iteration. -/
def HasRound (x : Execution) (frame : Frame) (id : String) (itemAs : Option String)
    (body : List Node) (m : Machine) (index : Nat) (i : Iteration) (final : Machine) : Prop :=
  ∃ earlier before after later, Looped frame m earlier before ∧ i.scope = before.store.size ∧
    (iterate x frame id itemAs (fun inner => runNodes x inner body) index i.value).on before =
      (.ok (), after) ∧
    Looped frame after later final

/-! ### Rounds -/

section

variable {id : String} {itemAs : Option String} {body : List Node}

/-- A round that is not cancelled passes its failure over. -/
theorem on_iterate_passes (hm : m.Calm frame) (hproceed : x.options.onFailure = .proceed)
    {index : Nat} {v : Value}
    (hbody : ((runNodes x (frame.inner id index m.store.size) body).on
      (m.openIteration frame id itemAs index v)).1 ≠ .error .cancelled) :
    (iterate x frame id itemAs (fun inner => runNodes x inner body) index v).on m =
      (.ok (), ((runNodes x (frame.inner id index m.store.size) body).on
        (m.openIteration frame id itemAs index v)).2.change m.store.size
          (Outcome.closing ((runNodes x (frame.inner id index m.store.size) body).on
            (m.openIteration frame id itemAs index v)).1)) := by
  rw [on_iterate hm.calm]
  generalize (runNodes x (frame.inner id index m.store.size) body).on
    (m.openIteration frame id itemAs index v) = ended at *
  obtain ⟨outcome, m₁⟩ := ended
  rcases outcome with f | ⟨⟩
  · cases f with
    | cancelled => exact absurd rfl hbody
    | _ =>
      dsimp only
      rw [on_bind, on_record, hproceed]
      rfl
  · rfl

variable (hbackend : ∀ before before' c, x.backend before c = x.backend before' c)
  (hproceed : x.options.onFailure = .proceed)
  (hexports : ∀ n ∈ Node.listing body, n.exportNames = [])

include hbackend hproceed hexports

/-- **Twin rounds.** Two rounds over the same element, in surroundings that look alike to the body,
    leave twins behind. -/
theorem twins_round (hm : m.Calm frame) (hm' : m'.Calm frame')
    (hlookup : ∀ n ∈ Node.listing body, ∀ token ∈ n.references,
      frame.stack.lookup m.store token = frame'.stack.lookup m'.store token)
    (id id' : String) (itemAs : Option String) (index index' : Nat) (v : Value) :
    ∃ k m₁ m₁', 0 < k ∧
      (iterate x frame id itemAs (fun inner => runNodes x inner body) index v).on m =
        (.ok (), m₁) ∧
      (iterate x frame' id' itemAs (fun inner => runNodes x inner body) index' v).on m' =
        (.ok (), m₁') ∧
      Twins m.store.size m'.store.size (m.openIteration frame id itemAs index v)
        (m'.openIteration frame' id' itemAs index' v) k m₁ m₁' := by
  have hframes : TwinFrames m.store.size m'.store.size frame.stack.scopes frame'.stack.scopes 1
      (frame.inner id index m.store.size) (frame'.inner id' index' m'.store.size) :=
    ⟨0, [], rfl, rfl, fun e he => Nat.lt_one_iff.2 (List.mem_singleton.1 he)⟩
  have htwins := twins_openIteration hm hm' id id' itemAs index index' v
  -- The body sees the surroundings as they were before the iteration was opened.
  have hsame : ∀ n ∈ Node.listing body, ∀ token ∈ n.references,
      frame.stack.lookup (m.openIteration frame id itemAs index v).store token =
        frame'.stack.lookup (m'.openIteration frame' id' itemAs index' v).store token := by
    intro n hn token htoken
    rw [lookup_openIteration hm, lookup_openIteration hm', hlookup n hn token htoken]
  obtain ⟨k, hk, hbody, hended⟩ := (twinning x hbackend m.store.size m'.store.size _ _
    hm.ready.stack hm'.ready.stack).runNodes body 1 _ _ hframes (fun n hn =>
      ⟨hsame n hn, fun name hname => (by rw [hexports n hn] at hname; cases hname),
        fun _ _ => trivial⟩) _ _ htwins
  obtain ⟨heq, hcalm⟩ := hended.outcome_eq
  refine ⟨k, _, _, hk, on_iterate_passes hm hproceed hcalm,
    on_iterate_passes hm' hproceed (heq ▸ hcalm), ?_⟩
  -- The two scopes are closed in the same way.
  rw [← heq]
  generalize ((runNodes x (frame.inner id index m.store.size) body).on _).1 = outcome
  have hclose := Twins.change hbody hk (c := Outcome.closing outcome)
    fun _ _ _ _ hstart => by rcases outcome with f | ⟨⟩ <;> cases hstart
  have hclosing : (Outcome.closing outcome).relocate (shift m.store.size m'.store.size) =
      Outcome.closing outcome := by
    rcases outcome with f | ⟨⟩ <;> rfl
  rwa [hclosing] at hclose

/-- **Rounds.** A round adds to the record of its loop, and else happens in new scopes. -/
theorem looped_round (hm : m.Calm frame) (id : String) (itemAs : Option String) (index : Nat)
    (v : Value) :
    ∃ m₁, (iterate x frame id itemAs (fun inner => runNodes x inner body) index v).on m =
        (.ok (), m₁) ∧
      Looped frame m [.startIteration id index v m.store.size] m₁ := by
  -- A round is its own twin.
  obtain ⟨k, m₁, m₁', hk, heq, heq', htwins⟩ := twins_round hbackend hproceed hexports hm hm
    (fun _ _ _ _ => rfl) id id itemAs index index v
  have habove := htwins.above
  have hle : m.store.size ≤ m₁.store.size := by
    rw [habove.size]
    exact Nat.le_add_right _ _
  have hold : ∀ s < m.store.size, m₁.store.scope s =
      if s = frame.top then (m.store.scope s).apply (.startIteration id index v m.store.size)
      else m.store.scope s := by
    intro s hs
    rw [(habove.below s hs).1, scope_openIteration hm.ready, if_neg (Nat.ne_of_lt hs)]
  refine ⟨m₁, heq, fun c hc => ?_, hle, ?_, fun s hs hne => ?_, ?_, habove.schedule, ?_⟩
  · rw [List.mem_singleton.1 hc]
    trivial
  · rw [hold _ hm.ready.top, if_pos rfl]
    rfl
  · rw [hold s hs, if_neg hne]
  · have hexec := (runs_iterate (runs_runNodes x body) frame id itemAs index v) m hm.ready
    rw [heq] at hexec
    obtain ⟨happened, hexec⟩ := hexec
    exact (hexec.extends hm.ready).ready hm.ready
  · rw [Stack.isCancelled, (habove.below _ hm.ready.top).2, isCancelled_openIteration,
      if_neg (Nat.ne_of_lt hm.ready.top)]
    exact hm.calm

/-- All rounds of a loop are gone through, and each of them is found on the way. -/
theorem looped_iterateAll (id : String) (itemAs : Option String) (values : List Value) :
    ∀ (index : Nat) {m : Machine}, m.Calm frame → ∃ its final,
      (iterateAll x frame id itemAs (fun inner => runNodes x inner body) index values).on m =
        (.ok (), final) ∧
      its.map (·.value) = values ∧
      Looped frame m ((iterationsOf frame.top id index its).flatMap
        (Occurrence.changesOf frame.top)) final ∧
      ∀ (p : Nat) i, its[p]? = some i → HasRound x frame id itemAs body m (index + p) i final := by
  induction values with
  | nil => exact fun index m hm => ⟨[], m, rfl, rfl, .refl hm, fun p i hi => by simp at hi⟩
  | cons v rest ih =>
    intro index m hm
    obtain ⟨m₁, heq, hround⟩ := looped_round hbackend hproceed hexports hm id itemAs index v
    obtain ⟨its, final, hrest, hvalues, hlooped, hrounds⟩ := ih (index + 1) hround.calm
    refine ⟨⟨v, m.store.size⟩ :: its, final, ?_, congrArg (v :: ·) hvalues, ?_, fun p i hi => ?_⟩
    · rw [iterateAll, on_bind, heq]
      exact hrest
    · rw [iterationsOf, List.flatMap_cons, Occurrence.changesOf, if_pos rfl]
      exact hround.trans hlooped
    · cases p with
      | zero =>
        obtain rfl : ⟨v, m.store.size⟩ = i := Option.some.inj hi
        exact ⟨[], m, m₁, _, .refl hm, rfl, heq, hlooped⟩
      | succ p =>
        obtain ⟨earlier, before, after, later, hbefore, hscope, hiterate, hafter⟩ := hrounds p i hi
        rw [Nat.add_right_comm] at hiterate
        exact ⟨_, before, after, later, hround.trans hbefore, hscope, hiterate, hafter⟩

/-- A loop that gets its elements goes through rounds over all of them, and its record lists them
    all. -/
theorem looped_loop (hm : m.Calm frame) (id : String) {elements : String}
    (itemAs : Option String) {v : Value} (hv : frame.stack.lookup m.store elements = some v) :
    ∃ its final, (runNode x frame (.loop id elements itemAs body)).on m = (.ok (), final) ∧
      its.map (·.value) = v.expand ∧
      (final.store.scope frame.top).loops.get? id = some (.over its none) ∧
      ∀ (p : Nat) i, its[p]? = some i → HasRound x frame id itemAs body m (1 + p) i final := by
  have hstart := Looped.change hm (c := .startLoop id true) trivial
  have hwait : (m.change frame.top (.startLoop id true)).await frame.stack ⟨id, frame.path⟩
      x.options.loopLimit elements = (.ok v, m.change frame.top (.startLoop id true)) := by
    rw [Machine.await_quiet hstart.calm.schedule hstart.calm.calm, hstart.lookup_eq hm.ready, hv]
  obtain ⟨its, m₁, heq, hvalues, hlooped, hrounds⟩ :=
    looped_iterateAll hbackend hproceed hexports id itemAs v.expand 1 hstart.calm
  have hfinish := Looped.change hlooped.calm (c := .finishLoop id) trivial
  refine ⟨its, m₁.change frame.top (.finishLoop id), ?_, hvalues, ?_, fun p i hi => ?_⟩
  · rw [runNode, runLoop, on_bind, on_record]
    dsimp only
    rw [on_bind, on_await, hwait]
    dsimp only
    rw [on_bind, heq]
    rfl
  · have hown := ((hstart.trans hlooped).trans hfinish).own
    have hrecords := recordsOf_loop (m.store.scope frame.top) (s := frame.top) (.inl rfl) its
      (c := .finishLoop id)
    rw [Scope.after, List.flatMap_append, List.flatMap_append, List.flatMap_singleton,
      List.flatMap_singleton, Occurrence.changesOf, if_pos rfl, Occurrence.changesOf, if_pos rfl,
      ← hown] at hrecords
    exact congrArg (fun records => records.2.2) hrecords
  · obtain ⟨earlier, before, after, later, hbefore, hscope, hiterate, hafter⟩ := hrounds p i hi
    exact ⟨_, before, after, _, hstart.trans hbefore, hscope, hiterate, hafter.trans hfinish⟩

/-- Rounds over the same element leave the same behind. -/
theorem HasRound.sameBelow (hm : m.Ready frame) (hm' : m'.Ready frame')
    (hlookup : ∀ n ∈ Node.listing body, ∀ token ∈ n.references,
      frame.stack.lookup m.store token = frame'.stack.lookup m'.store token)
    {id : String} {itemAs : Option String} {index index' : Nat} {i i' : Iteration}
    {final final' : Machine} (h : HasRound x frame id itemAs body m index i final)
    (h' : HasRound x frame' id itemAs body m' index' i' final') (hvalue : i.value = i'.value) :
    final.store.SameBelow final'.store i.scope i'.scope := by
  obtain ⟨earlier, before, after, later, hbefore, hscope, hiterate, hafter⟩ := h
  obtain ⟨earlier', before', after', later', hbefore', hscope', hiterate', hafter'⟩ := h'
  have hready := hbefore.calm.ready
  have hready' := hbefore'.calm.ready
  -- What the loop has done so far is nothing to the body.
  obtain ⟨k, m₁, m₁', hk, heq, heq', htwins⟩ := twins_round hbackend hproceed hexports
    hbefore.calm hbefore'.calm (fun n hn token htoken => by
      rw [hbefore.lookup_eq hm, hbefore'.lookup_eq hm', hlookup n hn token htoken])
    id id itemAs index index' i.value
  rw [hiterate] at heq
  rw [← hvalue] at hiterate'
  rw [hiterate'] at heq'
  obtain rfl : after = m₁ := congrArg Prod.snd heq
  obtain rfl : after' = m₁' := congrArg Prod.snd heq'
  have hlater : ∀ d < k, final.store.scope (before.store.size + d) =
      after.store.scope (before.store.size + d) := fun d hd =>
    hafter.others _ (htwins.above.there hd)
      (Nat.ne_of_gt (Nat.lt_of_lt_of_le hready.top (Nat.le_add_right _ d)))
  have hlater' : ∀ d < k, final'.store.scope (before'.store.size + d) =
      after'.store.scope (before'.store.size + d) := fun d hd =>
    hafter'.others _ (htwins.above'.there hd)
      (Nat.ne_of_gt (Nat.lt_of_lt_of_le hready'.top (Nat.le_add_right _ d)))
  rw [hscope, hscope']
  intro s hs
  -- All scopes below are scopes of the round.
  have hbelow : ∃ d < k, s = before.store.size + d := by
    induction hs with
    | root => exact ⟨0, hk, rfl⟩
    | child _ hr hi ih =>
      obtain ⟨d, hd, rfl⟩ := ih
      rw [hlater d hd] at hr
      exact (htwins.above.closed d _ _ hr).history _ _ hi
  obtain ⟨d, hd, rfl⟩ := hbelow
  refine ⟨Nat.le_add_right _ d, ?_⟩
  rw [shift_add, hlater d hd, hlater' d hd, htwins.scopes]

/-- **Isolation.** A loop whose body exports nothing, that is run in two surroundings which look
    alike to its body, leaves the same behind for an element that it gets in both.  It does not
    matter under which numbers the element comes, which elements come besides, and what becomes of
    their iterations. -/
theorem isolated_loop (hm : m.Calm frame) (hm' : m'.Calm frame')
    (hlookup : ∀ n ∈ Node.listing body, ∀ token ∈ n.references,
      frame.stack.lookup m.store token = frame'.stack.lookup m'.store token)
    {id elements : String} {itemAs : Option String} {v v' : Value}
    (hv : frame.stack.lookup m.store elements = some v)
    (hv' : frame'.stack.lookup m'.store elements = some v') {i j : Nat} {item : Value}
    (hi : v.expand[i]? = some item) (hj : v'.expand[j]? = some item) :
    ∃ final final' t t',
      (runNode x frame (.loop id elements itemAs body)).on m = (.ok (), final) ∧
      (runNode x frame' (.loop id elements itemAs body)).on m' = (.ok (), final') ∧
      final.Lists frame.top id (i + 1) ⟨item, t⟩ ∧ final'.Lists frame'.top id (j + 1) ⟨item, t'⟩ ∧
      final.store.SameBelow final'.store t t' := by
  obtain ⟨its, final, heq, hvalues, hrecord, hrounds⟩ :=
    looped_loop hbackend hproceed hexports hm id itemAs hv
  obtain ⟨its', final', heq', hvalues', hrecord', hrounds'⟩ :=
    looped_loop hbackend hproceed hexports hm' id itemAs hv'
  rw [← hvalues, List.getElem?_map, Option.map_eq_some_iff] at hi
  rw [← hvalues', List.getElem?_map, Option.map_eq_some_iff] at hj
  obtain ⟨⟨value, t⟩, hit, rfl⟩ := hi
  obtain ⟨⟨value', t'⟩, hit', hsame⟩ := hj
  dsimp only at hsame
  subst hsame
  exact ⟨final, final', t, t', heq, heq', ⟨_, hrecord, get?_historyOf hit⟩,
    ⟨_, hrecord', get?_historyOf hit'⟩,
    (hrounds i _ hit).sameBelow hbackend hproceed hexports hm.ready hm'.ready hlookup
      (hrounds' j _ hit') rfl⟩

end

/-! ### A loop over hosts -/

/-- A backend that fails for one host. -/
def hostRun : Execution where
  graph := ⟨[]⟩
  backend _ call :=
    if call.inputs.get? "host" = some "p" then .error (.failed call.urn "down") else .ok {}

/-- An action for a host, and a loop for one of them. -/
def hostBody : List Node :=
  [.action "2" "u" (.singleton "host" "$x") ∅,
    .choice "3" "$x==q" [.loop "4" "$x" none [.action "5" "v" ∅ ∅]] []]

/-- A machine before a run over some hosts. -/
def hostMachine (hosts : List String) : Machine :=
  .scheduled (.singleton "hosts" (.list hosts)) []

/-- The third of three hosts, of which the first one is down, and the only host. -/
theorem isolated_hosts : ∃ final final' t t',
    (runNode hostRun (hostMachine ["p", "o", "q"]).outermost
      (.loop "1" "@alert:hosts" (some "x") hostBody)).on (hostMachine ["p", "o", "q"]) =
        (.ok (), final) ∧
    (runNode hostRun (hostMachine ["q"]).outermost
      (.loop "1" "@alert:hosts" (some "x") hostBody)).on (hostMachine ["q"]) = (.ok (), final') ∧
    final.Lists 0 "1" 3 ⟨.scalar "q", t⟩ ∧ final'.Lists 0 "1" 1 ⟨.scalar "q", t'⟩ ∧
    final.store.SameBelow final'.store t t' := by
  have hcalm : ∀ hosts, (hostMachine hosts).Calm (hostMachine hosts).outermost := fun hosts =>
    ⟨⟨Nat.one_pos, fun s hs => List.mem_singleton.1 hs ▸ Nat.one_pos⟩, rfl, rfl⟩
  have hexports : ∀ n ∈ Node.listing hostBody, n.exportNames = [] := by decide +kernel
  have hlookup : ∀ n ∈ Node.listing hostBody, ∀ token ∈ n.references,
      (hostMachine ["p", "o", "q"]).outermost.stack.lookup
        (hostMachine ["p", "o", "q"]).store token =
      (hostMachine ["q"]).outermost.stack.lookup (hostMachine ["q"]).store token := by
    decide +kernel
  have hhosts : ∀ hosts, (hostMachine hosts).outermost.stack.lookup (hostMachine hosts).store
      "@alert:hosts" = some (.list hosts) := fun hosts => rfl
  exact isolated_loop (x := hostRun) (fun _ _ _ => rfl) rfl hexports (hcalm _) (hcalm _) hlookup
    (hhosts _) (hhosts _) (i := 2) (j := 0) rfl rfl

end Runbook
