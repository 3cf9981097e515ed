import Mathlib.Data.List.Induction
import Runbook.Proofs.Run.Histories
import Runbook.Proofs.Run.Sessions

namespace Runbook

/-!
# Running a graph — how the scopes of iterations are left

The scope of an iteration is closed once its body has ended, with an error if the body has failed.
Only where the body was cancelled it stays open, and without an error, although the loop is over and
lists the iteration in its history.

* `Outcome.closings`, `Scope.ClosedAfter` — what is done to the scope of an iteration whose body has
  ended, and how that leaves it;
* `Iterates` — an iteration that a run comes to, and how its body ends;
* `Housed`, `Exec.housed` — every scope that is opened in a stretch is the one of an iteration, and
  is left accordingly, by induction on executions;
* `LoopRecord.Has`, `Scope.began_apply` — the iterations on record have begun;
* `closed_session` — the law for sessions;
* `open_interruptedRun` — a run that leaves a scope open.
-/

/-! ### Closing scopes -/

/-- A scope is completed by a change that closes it, and stays so. -/
theorem Scope.completed_apply (s : Scope) (c : Change) :
    (s.apply c).completed = (s.completed || c.closes) := by
  cases c with
  | finishLoop id =>
    obtain ⟨loops, hloops⟩ := s.change_finishLoop id
    show (s.change (.finishLoop id)).completed = _
    rw [hloops]
    exact (Bool.or_false _).symm
  | close | closeWithError => exact (Bool.or_true _).symm
  | _ => exact (Bool.or_false _).symm

/-- `Scope.completed_apply` for several changes. -/
theorem Scope.completed_foldl (cs : List Change) (s : Scope) :
    (cs.foldl Scope.apply s).completed = (s.completed || cs.any Change.closes) := by
  induction cs generalizing s with
  | nil => exact (Bool.or_false _).symm
  | cons c rest ih => rw [List.foldl_cons, ih, completed_apply, List.any_cons, Bool.or_assoc]

/-- A scope that is not closed stays as open as it was. -/
theorem LeavesOpen.completed_eq {s : ScopeId} {m m' : Machine} {happened : List Occurrence}
    {backend : Backend} {seed : Dict String Value} (h : LeavesOpen s happened)
    (hext : Extends backend m happened m') (hm : m.Sound backend seed) :
    (m'.store.scope s).completed = (m.store.scope s).completed := by
  have hnone : (happened.flatMap (Occurrence.changesOf s)).any Change.closes = false := by
    refine List.any_eq_false.2 fun c hc => ?_
    obtain ⟨o, ho, hco⟩ := List.mem_flatMap.1 hc
    rw [h o ho c hco]
    exact Bool.false_ne_true
  rw [hext.scope hm, Scope.completed_foldl, hnone, Bool.or_false]

/-- What is done to the scope of an iteration whose body has ended. -/
def Outcome.closings : Outcome → List Change
  | .ok () => [.close]
  | .error .cancelled => []
  | .error f => [.closeWithError f.message]

/-- A body that fails closes its scope with the message of the failure. -/
theorem Outcome.closings_error {f : Failure} (h : f ≠ .cancelled) :
    Outcome.closings (.error f) = [.closeWithError f.message] := by
  cases f with
  | cancelled => exact absurd rfl h
  | _ => rfl

/-- How the scope of an iteration is left whose body has ended: closed unless the body was
    cancelled, and with an error just if the body has failed otherwise, namely with its failure. -/
structure Scope.ClosedAfter (s : Scope) (ended : Outcome) : Prop where
  completed : s.completed = true ↔ ended.status ≠ .cancelled
  error : s.error = ended.leftError
  halted : s.error.isSome ↔ ended.status = .halted

/-- An open scope is closed as the outcome says. -/
theorem Scope.closedAfter_foldl {s : Scope} (hopen : s.completed = false) (hsound : s.error = none)
    (ended : Outcome) : (ended.closings.foldl Scope.apply s).ClosedAfter ended := by
  have herror : (ended.closings.foldl Scope.apply s).error = ended.leftError := by
    rcases ended with f | ⟨⟩
    · cases f <;> first | exact hsound | rfl
    · exact hsound
  refine ⟨?_, herror, ?_⟩
  · rcases ended with f | ⟨⟩
    · cases f <;> simp [Outcome.closings, Outcome.status, completed_apply, Change.closes, hopen]
    · simp [Outcome.closings, Outcome.status, completed_apply, Change.closes]
  · rw [herror]
    exact ended.isSome_leftError

/-- A scope that was closed stays as it is while nothing closes it again. -/
theorem LeavesOpen.closedAfter {s : ScopeId} {m m' : Machine} {happened : List Occurrence}
    {backend : Backend} {seed : Dict String Value} {ended : Outcome} (h : LeavesOpen s happened)
    (hext : Extends backend m happened m') (hm : m.Sound backend seed)
    (hclosed : (m.store.scope s).ClosedAfter ended) : (m'.store.scope s).ClosedAfter ended := by
  obtain ⟨hcompleted, herror, hhalted⟩ := hclosed
  exact ⟨h.completed_eq hext hm ▸ hcompleted, h.error_eq hext hm ▸ herror,
    h.error_eq hext hm ▸ hhalted⟩

/-! ### Scopes of iterations -/

/-- From `first` on a run goes through the iteration `i`, which is the one with number `k` of the
    loop `id` in the scope `s`, and its body has `ended`. -/
inductive Iterates (x : Execution) (first : Stage) (s : ScopeId) (id : String) (k : Int)
    (i : Iteration) (ended : Outcome) : Prop
  | intro {frame : Frame} {itemAs : Option String} {body : List Node} {index : Nat} {m : Machine} :
      frame.top = s → index = k → m.store.size = i.scope →
      Reaches x first ⟨frame, .round id itemAs body index i.value, m⟩ →
      frame.stack.isCancelled m.store = false →
      ((Run.runNodes x (frame.inner id index i.scope) body).on
        (m.openIteration frame id itemAs index i.value)).1 = ended →
      Iterates x first s id k i ended

/-- In a stretch from `first` on, the scope `t` is opened for an iteration and left as its body has
    ended.  If the body was cancelled, so was all the stretch. -/
inductive Housed (x : Execution) (first : Stage) (happened : List Occurrence) (outcome : Outcome)
    (m' : Machine) (t : ScopeId) : Prop
  | intro {s : ScopeId} {id : String} {k : Int} {v : Value} {ended : Outcome}
      (began : .changed s (.startIteration id k v t) ∈ happened)
      (iterates : Iterates x first s id k ⟨v, t⟩ ended)
      (closed : (m'.store.scope t).ClosedAfter ended)
      (cancels : ended = .error .cancelled → outcome = .error .cancelled) :
      Housed x first happened outcome m' t

namespace Housed

variable {x : Execution} {first next : Stage} {happened happened' before after : List Occurrence}
  {outcome outcome' : Outcome} {m₁ m' : Machine} {t : ScopeId} {seed : Dict String Value}

/-- The same, from an earlier stage. -/
theorem enter (h : Housed x next happened outcome m' t) (henters : Enters x first next) :
    Housed x first happened outcome m' t := by
  obtain ⟨began, ⟨top, number, size, reaches, calm, ends⟩, closed, cancels⟩ := h
  exact .intro began (.intro top number size (.head henters reaches) calm ends) closed cancels

/-- The same, with more that happens. -/
theorem mono (h : Housed x first happened outcome m' t) (hsub : happened ⊆ happened') :
    Housed x first happened' outcome m' t := by
  obtain ⟨began, iterates, closed, cancels⟩ := h
  exact .intro (hsub began) iterates closed cancels

/-- The same, from an earlier stage and with what happens until the later one. -/
theorem later (h : Housed x next after outcome m' t) (henters : Enters x first next) :
    Housed x first (before ++ after) outcome m' t :=
  (h.enter henters).mono (List.subset_append_right _ _)

/-- The same, seen when the run has gone on. -/
theorem goOn (h : Housed x first before outcome m₁ t) (hext : Extends x.backend m₁ after m')
    (hm : m₁.Sound x.backend seed) (hleaves : LeavesOpen t after)
    (hcancels : outcome = .error .cancelled → outcome' = .error .cancelled) :
    Housed x first (before ++ after) outcome' m' t := by
  obtain ⟨began, iterates, closed, cancels⟩ := h
  exact .intro (List.mem_append_left _ began) iterates (hleaves.closedAfter hext hm closed)
    fun hended => hcancels (cancels hended)

/-- The same, seen after another execution, which leaves alone the scopes that are there. -/
theorem andThen {frame' : Frame} {task' : Task} (h : Housed x first before (.ok ()) m₁ t)
    (h' : Exec x frame' task' m₁ after outcome' m') (hready : m₁.Ready frame')
    (hm : m₁.Sound x.backend seed) (ht : t < m₁.store.size) :
    Housed x first (before ++ after) outcome' m' t :=
  h.goOn (h'.extends hready) hm
    ((h'.stays hready).leavesOpen fun hopened => Nat.not_le_of_lt ht hopened.1) nofun

end Housed

variable {x : Execution} {frame : Frame} {m m₁ m' : Machine} {happened : List Occurrence}
  {seed : Dict String Value} {t : ScopeId}

/-- Without more scopes none is opened. -/
theorem not_opened_of_size (h : m'.store.size = m.store.size) : ¬ Opened m m' t :=
  fun hopened => Nat.not_lt_of_le hopened.1 (h ▸ hopened.2)

/-- Where no iteration begins, no scope is opened. -/
theorem Childless.not_opened {backend : Backend} (h : Childless happened)
    (hext : Extends backend m happened m') : ¬ Opened m m' t :=
  not_opened_of_size (by rw [hext.size, h.countP_opens, Nat.add_zero])

/-- A scope is opened before some machine or after it. -/
theorem Opened.split (h : Opened m m' t) : Opened m m₁ t ∨ Opened m₁ m' t := by
  by_cases hlt : t < m₁.store.size
  · exact .inl ⟨h.1, hlt⟩
  · exact .inr ⟨Nat.le_of_not_lt hlt, h.2⟩

/-- The scope of an iteration is left as its body ends, and the scopes opened in the body stay as
    the body leaves them. -/
theorem Housed.round {id : String} {itemAs : Option String} {body : List Node} {index : Nat}
    {v : Value} {closing : List Occurrence} {ended outcome : Outcome} (hm : m.Ready frame)
    (hsound : m.Sound x.backend seed) (hcalm : frame.stack.isCancelled m.store = false)
    (h : Exec x (frame.inner id index m.store.size) (.nodes body)
      (m.openIteration frame id itemAs index v) happened ended m₁)
    (hbody : ∀ t, Opened (m.openIteration frame id itemAs index v) m₁ t →
      Housed x ⟨frame.inner id index m.store.size, .nodes body,
        m.openIteration frame id itemAs index v⟩ happened ended m₁ t)
    (hext : Extends x.backend m₁ closing m')
    (hclosing : ∀ o ∈ closing, ∃ u d, o = .changed u d ∧ (d.closes → u = m.store.size))
    (hown : closing.flatMap (Occurrence.changesOf m.store.size) = ended.closings)
    (hcancels : ended = .error .cancelled → outcome = .error .cancelled) (ht : Opened m m' t) :
    Housed x ⟨frame, .round id itemAs body index v, m⟩
      (openingOf frame id itemAs index v m.store.size ++ happened ++ closing) outcome m' t := by
  obtain ⟨hopen, hready⟩ := extends_openIteration x.backend hm id itemAs index v
  have hinner := h.extends hready
  have hsize := size_openIteration m frame id itemAs index v
  have hsound₁ := (hopen.trans hinner).sound seed hsound
  have hnone : closing.countP Occurrence.opens = 0 := by
    refine List.countP_eq_zero.2 fun o ho => ?_
    obtain ⟨u, d, rfl, -⟩ := hclosing o ho
    exact Bool.false_ne_true
  have hend := hext.size
  rw [hnone, Nat.add_zero] at hend
  by_cases hown' : t = m.store.size
  · subst hown'
    -- The scope was empty before the round, and the body leaves it open.
    have hleaves : LeavesOpen m.store.size
        (openingOf frame id itemAs index v m.store.size ++ happened) := by
      refine .append (leavesOpen_openingOf frame id itemAs index v _ _)
        ((h.stays hready).leavesOpen fun hopened => ?_)
      have := hopened.1
      omega
    have hopened := hleaves.completed_eq (hopen.trans hinner) hsound
    have hsafe := hleaves.error_eq (hopen.trans hinner) hsound
    rw [Store.scope_of_size_le (Nat.le_refl _)] at hopened hsafe
    refine .intro (s := frame.top) (k := index) (v := v) ?_
      (.intro rfl rfl rfl .refl hcalm (congrArg Prod.fst h.on_eq)) ?_ hcancels
    · simp [openingOf]
    · rw [hext.scope hsound₁, hown]
      exact Scope.closedAfter_foldl hopened hsafe ended
  · -- Scopes that are opened in the body are younger than the one of the iteration.
    have hlt : m.store.size < t := Nat.lt_of_le_of_ne ht.1 (Ne.symm hown')
    have hopened : Opened (m.openIteration frame id itemAs index v) m₁ t :=
      ⟨hsize ▸ hlt, hend ▸ ht.2⟩
    have hleaves : LeavesOpen t closing := by
      intro o ho
      obtain ⟨u, d, rfl, hcloses⟩ := hclosing o ho
      refine LeavesOpen.change (fun heq => Bool.eq_false_iff.2 fun hd => ?_) _
        (List.mem_singleton_self _)
      exact hown' (heq ▸ hcloses hd)
    rw [List.append_assoc]
    exact ((hbody t hopened).goOn hext hsound₁ hleaves hcancels).later (.body hcalm)

/-- An iteration after whose body there is one more change. -/
theorem Exec.housed_round {id : String} {itemAs : Option String} {body : List Node} {index : Nat}
    {v : Value} {ended outcome : Outcome} {u : ScopeId} {d : Change} (hm : m.Ready frame)
    (hsound : m.Sound x.backend seed) (hcalm : frame.stack.isCancelled m.store = false)
    (h : Exec x (frame.inner id index m.store.size) (.nodes body)
      (m.openIteration frame id itemAs index v) happened ended m₁)
    (hbody : (m.openIteration frame id itemAs index v).Ready (frame.inner id index m.store.size) →
      (m.openIteration frame id itemAs index v).Sound x.backend seed →
      ∀ t, Opened (m.openIteration frame id itemAs index v) m₁ t →
        Housed x ⟨frame.inner id index m.store.size, .nodes body,
          m.openIteration frame id itemAs index v⟩ happened ended m₁ t)
    (hu : u ≤ m.store.size) (hcloses : d.closes → u = m.store.size)
    (hown : Occurrence.changesOf m.store.size (.changed u d) = ended.closings)
    (hcancels : ended = .error .cancelled → outcome = .error .cancelled)
    (ht : Opened m (m₁.change u d) t) :
    Housed x ⟨frame, .round id itemAs body index v, m⟩
      (openingOf frame id itemAs index v m.store.size ++ happened ++ [.changed u d]) outcome
      (m₁.change u d) t := by
  obtain ⟨hopen, hready⟩ := extends_openIteration x.backend hm id itemAs index v
  have hlt : u < m₁.store.size := Nat.lt_of_le_of_lt hu ((h.extends hready).ready hready).top
  exact .round hm hsound hcalm h (hbody hready (hopen.sound seed hsound)) (.change hlt d)
    (fun o ho => ⟨_, _, List.mem_singleton.1 ho, hcloses⟩)
    ((List.flatMap_singleton ..).trans hown) hcancels ht

/-- An iteration that fails its loop: its scope is closed, and then the loop fails. -/
theorem Exec.housed_halted {id : String} {itemAs : Option String} {body : List Node} {index : Nat}
    {v : Value} {f : Failure} (hm : m.Ready frame) (hsound : m.Sound x.backend seed)
    (hcalm : frame.stack.isCancelled m.store = false)
    (h : Exec x (frame.inner id index m.store.size) (.nodes body)
      (m.openIteration frame id itemAs index v) happened (.error f) m₁)
    (hbody : (m.openIteration frame id itemAs index v).Ready (frame.inner id index m.store.size) →
      (m.openIteration frame id itemAs index v).Sound x.backend seed →
      ∀ t, Opened (m.openIteration frame id itemAs index v) m₁ t →
        Housed x ⟨frame.inner id index m.store.size, .nodes body,
          m.openIteration frame id itemAs index v⟩ happened (.error f) m₁ t)
    (hf : f ≠ .cancelled)
    (ht : Opened m ((m₁.change m.store.size (.closeWithError f.message)).change frame.top
      (.failLoop id (Failure.iterationFailed id index f).recordText)) t) :
    Housed x ⟨frame, .round id itemAs body index v, m⟩
      (openingOf frame id itemAs index v m.store.size ++ happened ++
        [.changed m.store.size (.closeWithError f.message)] ++
        [.changed frame.top (.failLoop id (Failure.iterationFailed id index f).recordText)])
      (.error (.iterationFailed id index f))
      ((m₁.change m.store.size (.closeWithError f.message)).change frame.top
        (.failLoop id (Failure.iterationFailed id index f).recordText)) t := by
  obtain ⟨hopen, hready⟩ := extends_openIteration x.backend hm id itemAs index v
  have hext := h.extends hready
  have hclose : Extends x.backend m₁ _ _ :=
    .change (hext.ready hready).top (.closeWithError f.message)
  have hother : frame.top ≠ m.store.size := Nat.ne_of_lt hm.top
  rw [List.append_assoc]
  refine .round hm hsound hcalm h (hbody hready (hopen.sound seed hsound))
    (hclose.trans (.change (((hopen.trans hext).trans hclose).ready hm).top _)) (fun o ho => ?_)
    ?_ (fun heq => absurd (Except.error.inj heq) hf) ht
  · rcases List.mem_append.1 ho with ho | ho
    · exact ⟨_, _, List.mem_singleton.1 ho, fun _ => rfl⟩
    · exact ⟨_, _, List.mem_singleton.1 ho, fun hcloses => by cases hcloses⟩
  · simp [Occurrence.changesOf, Outcome.closings_error hf, hother]

/-- A loop that has finished, whose iterations tell of the scope. -/
theorem Exec.housed_finished {id elements : String} {itemAs : Option String} {body : List Node}
    {waited : List Occurrence} {v : Value} {m₂ : Machine} (hm : m.Ready frame)
    (hsound : m.Sound x.backend seed)
    (hw : Awaited frame id x.options.loopLimit [elements]
      (m.change frame.top (.startLoop id true)) waited (.ok [v]) m₁)
    (h : Exec x frame (.rounds id itemAs body 1 v.expand) m₁ happened (.ok ()) m₂)
    (hrounds : m₁.Ready frame → m₁.Sound x.backend seed → Opened m₁ m₂ t →
      Housed x ⟨frame, .rounds id itemAs body 1 v.expand, m₁⟩ happened (.ok ()) m₂ t)
    (ht : Opened m (m₂.change frame.top (.finishLoop id)) t) :
    Housed x ⟨frame, .node (.loop id elements itemAs body), m⟩
      ([.changed frame.top (.startLoop id true)] ++ waited ++ happened ++
        [.changed frame.top (.finishLoop id)])
      (.ok ()) (m₂.change frame.top (.finishLoop id)) t := by
  have hext := hw.extends_after x.backend hm
  have hready := hext.ready hm
  have hinner := h.extends hready
  have hsound₁ := hext.sound seed hsound
  have hopened := ht.weaken (Nat.le_refl _) (Nat.le_of_eq (Machine.size_change _ _ _))
  have ht := hopened.split.resolve_left ((hw.childless hm rfl).not_opened hext)
  rw [List.append_assoc]
  exact ((hrounds hready hsound₁ ht).goOn (.change (hinner.ready hready).top _)
    (hinner.sound seed hsound₁) (.change fun _ => rfl) fun hok => hok).later (.rounds hw.await_ok)

/-- **Scopes of iterations.** Every scope that an execution opens is the one of an iteration, and is
    left as the body of the iteration has ended. -/
theorem Exec.housed {task : Task} {outcome : Outcome}
    (h : Exec x frame task m happened outcome m') (hm : m.Ready frame)
    (hsound : m.Sound x.backend seed) (ht : Opened m m' t) :
    Housed x ⟨frame, task, m⟩ happened outcome m' t := by
  induction h generalizing t with
  | nil | stopped | noRounds => exact absurd ht.2 (Nat.not_lt_of_le ht.1)
  | failed hcalm _ ih => exact (ih hm hsound ht).enter (.head hcalm)
  | cons hcalm h h' ih ih' =>
    have hext := h.extends hm
    have hready := hext.ready hm
    -- The scope was opened by the first node, or by one of the others.
    rcases ht.split with ht | ht
    · exact ((ih hm hsound ht).andThen h' hready (hext.sound seed hsound) ht.2).enter
        (.head hcalm)
    · exact (ih' hready (hext.sound seed hsound) ht).later (.tail hcalm h.on_eq)
  -- Actions, waits and decisions open no scope.
  | action h => exact absurd ht ((h.childless hm).not_opened (h.extends hm))
  | undecided h => exact absurd ht ((h.childless hm).not_opened (h.extends hm))
  | decided h _ ih =>
    have hext := h.extends hm
    have ht := ht.split.resolve_left ((h.childless hm).not_opened hext)
    exact (ih (hext.ready hm) (hext.sound seed hsound) ht).later (.branch h.on_eq)
  | starved hw =>
    refine absurd ht (Childless.not_opened ?_ ((hw.extends_after x.backend hm).andChange hm _))
    exact (hw.childless hm rfl).append (.singleton rfl rfl)
  | broken hw _ ih =>
    have hext := hw.extends_after x.backend hm
    have ht := ht.split.resolve_left ((hw.childless hm rfl).not_opened hext)
    exact (ih (hext.ready hm) (hext.sound seed hsound) ht).later (.rounds hw.await_ok)
  | finished hw h ih => exact Exec.housed_finished hm hsound hw h ih ht
  | lastRound _ ih => exact (ih hm hsound ht).enter .round
  | nextRound h h' ih ih' =>
    have hext := h.extends hm
    have hready := hext.ready hm
    rcases ht.split with ht | ht
    · exact ((ih hm hsound ht).andThen h' hready (hext.sound seed hsound) ht.2).enter .round
    · exact (ih' hready (hext.sound seed hsound) ht).later (.nextRound h.on_eq)
  | refused => exact absurd ht (not_opened_of_size (Machine.size_change _ _ _))
  | completed hcalm h ih =>
    exact h.housed_round hm hsound hcalm (fun hready hsound _ => ih hready hsound)
      (Nat.le_refl _) (fun _ => rfl) (by simp [Occurrence.changesOf, Outcome.closings])
      (fun hok => by cases hok) ht
  | passed hcalm h hf _ ih =>
    exact h.housed_round hm hsound hcalm (fun hready hsound _ => ih hready hsound)
      (Nat.le_refl _) (fun _ => rfl) (by simp [Occurrence.changesOf, Outcome.closings_error hf])
      (fun heq => absurd (Except.error.inj heq) hf) ht
  | halted hcalm h hf _ ih =>
    exact h.housed_halted hm hsound hcalm (fun hready hsound _ => ih hready hsound) hf ht
  | @interrupted frame _ _ _ _ _ m _ _ hcalm h ih =>
    have hother : frame.top ≠ m.store.size := Nat.ne_of_lt hm.top
    exact h.housed_round hm hsound hcalm (fun hready hsound _ => ih hready hsound)
      (Nat.le_of_lt hm.top) (fun hcloses => by cases hcloses)
      (by simp [Occurrence.changesOf, Outcome.closings, hother]) (fun _ => rfl) ht

/-! ### Iterations on record -/

/-- An iteration is on record, in the history or as the current one. -/
def LoopRecord.Has (r : LoopRecord) (k : Int) (i : Iteration) : Prop :=
  r.history.get? k = some i ∨ (r.index = k ∧ r.current = some i)

/-- Freezing adds no iteration to a record. -/
theorem LoopRecord.has_of_freeze {r : LoopRecord} {k : Int} {i : Iteration} (h : r.freeze.Has k i) :
    r.Has k i := by
  unfold freeze at h
  cases hcurrent : r.current with
  | none =>
    rw [hcurrent] at h
    exact h
  | some j =>
    rw [hcurrent] at h
    rcases h with hhistory | ⟨hindex, hj⟩
    · dsimp only at hhistory
      rw [Dict.get?_insert] at hhistory
      by_cases hk : k = r.index
      · rw [if_pos hk] at hhistory
        exact .inr ⟨hk.symm, hcurrent.trans hhistory⟩
      · rw [if_neg hk] at hhistory
        exact .inl hhistory
    · exact .inr ⟨hindex, hcurrent.trans hj⟩

/-- A new record has no iterations. -/
theorem LoopRecord.not_has_new (isWaiting : Bool) (k : Int) (i : Iteration) :
    ¬ LoopRecord.Has { waiting := isWaiting } k i :=
  fun h => h.elim (fun hhistory => by cases hhistory) fun hcurrent => by cases hcurrent.2

namespace Scope

/-- A changed record of a loop has the iterations that it had before, unless the change adds one. -/
theorem has_updateLoop {s : Scope} {node id : String} {f : LoopRecord → LoopRecord}
    {r : LoopRecord} {k : Int} {i : Iteration} {p : Prop}
    (hf : ∀ r, (f r).Has k i → p ∨ r.Has k i)
    (hr : (s.updateLoop node f).loops.get? id = some r) (hi : r.Has k i) :
    (id = node ∧ p) ∨ ∃ r', s.loops.get? id = some r' ∧ r'.Has k i := by
  rw [updateLoop, Dict.get?_update] at hr
  by_cases hid : id = node
  · rw [if_pos hid] at hr
    obtain rfl := Option.some.inj hr
    refine (hf _ hi).imp (fun hp => ⟨hid, hp⟩) fun hold => ?_
    rw [hid]
    cases hfind : s.loops.get? node with
    | none =>
      rw [hfind] at hold
      exact absurd hold (LoopRecord.not_has_new _ _ _)
    | some r' =>
      rw [hfind] at hold
      exact ⟨r', rfl, hold⟩
  · rw [if_neg hid] at hr
    exact .inr ⟨r, hr, hi⟩

/-- An iteration that is on record after a change was there before, or begins with the change. -/
theorem began_apply {s : Scope} {c : Change} {id : String} {r : LoopRecord} {k : Int}
    {i : Iteration} (hr : (s.apply c).loops.get? id = some r) (hi : r.Has k i) :
    c = .startIteration id k i.value i.scope ∨ ∃ r', s.loops.get? id = some r' ∧ r'.Has k i := by
  cases c with
  | startLoop node isWaiting =>
    change (s.loops.insert node { waiting := isWaiting }).get? id = some r at hr
    rw [Dict.get?_insert] at hr
    by_cases hid : id = node
    · rw [if_pos hid] at hr
      obtain rfl := Option.some.inj hr
      exact absurd hi (LoopRecord.not_has_new _ _ _)
    · rw [if_neg hid] at hr
      exact .inr ⟨r, hr, hi⟩
  | startIteration node index v child =>
    -- The current iteration is the new one; the one before it goes to the history.
    have hnew : ∀ r : LoopRecord, LoopRecord.Has
        { r.freeze with waiting := false, index := index, current := some ⟨v, child⟩ } k i →
        (index = k ∧ (⟨v, child⟩ : Iteration) = i) ∨ r.Has k i := by
      rintro r (hhistory | ⟨hindex, hcurrent⟩)
      · exact .inr (LoopRecord.has_of_freeze (.inl hhistory))
      · exact .inl ⟨hindex, Option.some.inj hcurrent⟩
    rcases has_updateLoop hnew hr hi with ⟨rfl, rfl, rfl⟩ | hold
    · exact .inl rfl
    · exact .inr hold
  | finishLoop node =>
    change (if s.loops.contains node then _ else s).loops.get? id = some r at hr
    by_cases hnode : s.loops.contains node
    · rw [if_pos hnode] at hr
      -- The current iteration goes to the history, and none is added.
      have hkept := has_updateLoop (p := False)
        (f := fun r => { r.freeze with waiting := false, done := true })
        (fun r h => .inr (LoopRecord.has_of_freeze h)) hr hi
      exact .inr (hkept.resolve_left And.right)
    · rw [if_neg hnode] at hr
      exact .inr ⟨r, hr, hi⟩
  | failLoop node error =>
    have hkept := has_updateLoop (p := False)
      (f := fun r => { r.freeze with waiting := false, done := true, error := some error })
      (fun r h => .inr (LoopRecord.has_of_freeze h)) hr hi
    exact .inr (hkept.resolve_left And.right)
  | _ => exact .inr ⟨r, hr, hi⟩

/-- `began_apply` for several changes. -/
theorem began_foldl (cs : List Change) : ∀ {s : Scope} {id : String} {r : LoopRecord} {k : Int}
    {i : Iteration}, (cs.foldl Scope.apply s).loops.get? id = some r → r.Has k i →
      .startIteration id k i.value i.scope ∈ cs ∨ ∃ r', s.loops.get? id = some r' ∧ r'.Has k i := by
  induction cs with
  | nil => exact fun hr hi => .inr ⟨_, hr, hi⟩
  | cons c rest ih =>
    intro s id r k i hr hi
    rcases ih hr hi with hmem | ⟨r', hr', hi'⟩
    · exact .inl (List.mem_cons_of_mem _ hmem)
    · refine (began_apply hr' hi').imp_left fun hc => ?_
      rw [hc]
      exact List.mem_cons_self

end Scope

/-- The iterations on record have begun as the record says. -/
theorem Machine.Sound.began {backend : Backend} (hm : m.Sound backend seed) {s : ScopeId}
    {id : String} {r : LoopRecord} {k : Int} {i : Iteration}
    (hr : (m.store.scope s).loops.get? id = some r) (hi : r.Has k i) :
    .changed s (.startIteration id k i.value i.scope) ∈ m.course := by
  rw [hm.told] at hr
  rcases Scope.began_foldl _ hr hi with hmem | ⟨r', hr', -⟩
  · obtain ⟨o, ho, hc⟩ := List.mem_flatMap.1 hmem
    exact Occurrence.eq_changed_of_mem_changesOf hc (fun _ => by simp) ▸ ho
  · -- No scope has records from the outset.
    unfold Scope.initial at hr'
    by_cases hs : s = 0
    · rw [if_pos hs] at hr'
      cases hr'
    · rw [if_neg hs] at hr'
      cases hr'

/-! ### Sessions -/

/-- What a deed does: it closes none of the scopes that were there before, besides the scope of the
    whole runbook, and the scopes that it opens are the ones of iterations. -/
theorem housed_undergo (h : m.Standing x.backend seed) (d : Deed) :
    ∃ happened, Extends x.backend m happened (x.undergo m d) ∧ Numbers m happened ∧
      (∀ t, t < m.store.size → t ≠ m.root → LeavesOpen t happened) ∧
      ∀ t, Opened m (x.undergo m d) t → ∃ events, d = .start events ∧
        Housed x (x.opening { m with schedule := events }) happened
          (x.start { m with schedule := events }).1 (x.undergo m d) t := by
  cases d with
  | outside effect =>
    obtain ⟨happened, hext, hforeign⟩ := Machine.extends_perform x.backend h.root effect
    have hstays : Stays (.of m.root) m happened (m.perform effect) := .foreign hforeign
    have hchildless := Childless.foreign hforeign
    exact ⟨happened, hext, hchildless.numbers m,
      fun t ht _ => hstays.leavesOpen fun hopened => Nat.not_lt_of_le hopened.1 ht,
      fun t ht => absurd ht (hchildless.not_opened hext)⟩
  | start events =>
    have hstanding := h.reschedule events
    obtain ⟨happened, hstarted⟩ := started_start x hstanding.root
    obtain ⟨m₁, hexec, hend⟩ := hstarted.exec
    have hready := hstarted.ready
    have hext := hexec.extends hready
    have hclosed := hstarted.extends
    have hclosing : (Occurrence.changed m.root
        (Outcome.closing (x.start { m with schedule := events }).1)).child? = none := by
      rcases (x.start { m with schedule := events }).1 with f | ⟨⟩ <;> rfl
    refine ⟨_, (Extends.reschedule m events).trans hclosed,
      (hexec.numbers hready).andChildless (.singleton hclosing rfl), fun t ht hroot => ?_,
      fun t ht => ⟨events, rfl, ?_⟩⟩
    · -- Only the root scope is closed once the nodes have run.
      exact ((hexec.stays hready).leavesOpen fun hopened => Nat.not_lt_of_le hopened.1 ht).append
        (.change fun heq => absurd heq.symm hroot)
    · have hroot : m.root < t := Nat.lt_of_lt_of_le h.root ht.1
      change Opened m (x.start { m with schedule := events }).2 t at ht
      change Housed _ _ _ _ (x.start { m with schedule := events }).2 t
      rw [hend] at ht ⊢
      have hopened : Opened { m with schedule := events } m₁ t :=
        ht.weaken (Nat.le_refl _) (Nat.le_of_eq (Machine.size_change _ _ _))
      exact (hexec.housed hready hstanding.sound hopened).goOn
        (.change (Nat.lt_of_lt_of_le h.root hext.size_le) _) (hext.sound seed hstanding.sound)
        (.change fun heq => absurd heq (Nat.ne_of_lt hroot)) fun hok => hok

/-- What is known of the scopes that a session has opened. -/
structure Houses (x : Execution) (seed : Dict String Value) (deeds : List Deed) : Prop where
  course : Extends x.backend (.fresh seed) (x.session seed deeds).course (x.session seed deeds)
  numbers : Numbers (.fresh seed) (x.session seed deeds).course
  housed : ∀ t, Opened (.fresh seed) (x.session seed deeds) t → ∃ before events after,
    deeds = before ++ .start events :: after ∧
      Housed x (x.opening { x.session seed before with schedule := events })
        (x.session seed deeds).course
        (x.start { x.session seed before with schedule := events }).1 (x.session seed deeds) t

/-- All iterations on record after a session are the ones its starts have told of. -/
theorem houses_session (x : Execution) (seed : Dict String Value) (deeds : List Deed) :
    Houses x seed deeds := by
  induction deeds using List.reverseRecOn with
  | nil => exact ⟨.refl _, rfl, fun t ht => absurd ht (not_opened_of_size rfl)⟩
  | append_singleton deeds d ih =>
    have hstanding := standing_session x seed deeds
    obtain ⟨happened, hext, hnumbers, hleaves, hopened⟩ := housed_undergo hstanding d
    have hlast : x.session seed (deeds ++ [d]) = x.undergo (x.session seed deeds) d := by
      rw [Execution.session, List.foldl_append]
      rfl
    rw [← hlast] at hext hopened
    constructor
    case course =>
      rw [hext.course]
      exact ih.course.trans hext
    case numbers =>
      rw [hext.course]
      exact ih.numbers.append ih.course hnumbers
    case housed =>
      intro t ht
      rw [hext.course]
      rcases ht.split with ht | ht
      · -- What is done later leaves the scope alone.
        obtain ⟨before, events, after, rfl, hhoused⟩ := ih.housed t ht
        have hroot : t ≠ (x.session seed (before ++ .start events :: after)).root :=
          hstanding.sound.root ▸ Nat.ne_of_gt ht.1
        exact ⟨before, events, after ++ [d], by simp,
          hhoused.goOn hext hstanding.sound (hleaves t ht.2 hroot) fun hok => hok⟩
      · obtain ⟨events, rfl, hhoused⟩ := hopened t ht
        exact ⟨deeds, events, [], rfl, hhoused.mono (List.subset_append_right _ _)⟩

/-- What becomes of the iterations on record in a session. -/
structure Closed (x : Execution) (seed : Dict String Value) (deeds : List Deed) : Prop where
  /-- Each of them is gone through by some start of the session, and its scope is left as its body
      ends there.  The body is cancelled only if the start is. -/
  iterations : ∀ s id r k i,
    ((x.session seed deeds).store.scope s).loops.get? id = some r → r.Has k i →
    ∃ before events after ended, deeds = before ++ .start events :: after ∧
      Iterates x (x.opening { x.session seed before with schedule := events }) s id k i ended ∧
      ((x.session seed deeds).store.scope i.scope).ClosedAfter ended ∧
      (ended.status = .cancelled →
        (x.start { x.session seed before with schedule := events }).1.status = .cancelled)

/-- **Scopes of iterations.** However often an execution is started, and however the starts end, the
    scope of every iteration on record is left as the body of the iteration has ended. -/
theorem closed_session (x : Execution) (seed : Dict String Value) (deeds : List Deed) :
    Closed x seed deeds := by
  constructor
  intro s id r k i hr hi
  have hstanding := standing_session x seed deeds
  obtain ⟨hcourse, hnumbers, hhoused⟩ := houses_session x seed deeds
  have hbegan := hstanding.sound.began hr hi
  have hchild : (Occurrence.changed s (.startIteration id k i.value i.scope)).child? =
    some i.scope := rfl
  have hopened : Opened (.fresh seed) (x.session seed deeds) i.scope := by
    have hmem := List.mem_filterMap.2 ⟨_, hbegan, hchild⟩
    rw [Numbers] at hnumbers
    rw [hnumbers, List.mem_range'_1, ← hcourse.size] at hmem
    exact hmem
  obtain ⟨before, events, after, hdeeds, hhouse⟩ := hhoused i.scope hopened
  obtain ⟨hbegan', hiterates, hclosed, hcancels⟩ := hhouse
  -- No other iteration has begun in this scope.
  have hsame := eq_of_child? (hnumbers ▸ List.nodup_range') hbegan hbegan' hchild rfl
  obtain ⟨rfl, hchange⟩ := Occurrence.changed.inj hsame
  obtain ⟨rfl, rfl, rfl, -⟩ := Change.startIteration.inj hchange
  refine ⟨before, events, after, _, hdeeds, hiterates, hclosed, fun hstatus => ?_⟩
  exact Outcome.status_cancelled.2 (hcancels (Outcome.status_cancelled.1 hstatus))

/-! ### A run that is cancelled within an iteration -/

/-- A loop over an action that waits for a value. -/
def interruptedSteps : List Step :=
  [{ Step.forEach "@alert:hosts" with
      id := some "l"
      body := [{ Step.execute "u" with id := some "a", params := .singleton "p" "$v" }] }]

def interruptedRun : Execution where
  graph := ⟨[.loop "l" "@alert:hosts" none [.action "a" "u" (.singleton "p" "$v") ∅]]⟩
  backend _ _ := .ok {}

def interruptedSeed : Dict String Value := .singleton "hosts" (.list ["h"])

/-- The first iteration is cancelled while its action waits.  The loop lists the iteration as over,
    but its scope is left open and without an error; the scope of the whole runbook is closed with
    one. -/
theorem open_interruptedRun :
    Graph.build interruptedSteps .fresh = (.ok interruptedRun.graph, ⟨1⟩) ∧
      let m := interruptedRun.session interruptedSeed [.start [⟨.anyWait, .cancel⟩]]
      ((m.store.scope 0).loops.get? "l").map (fun r => r.history.entries) =
          some [(1, ⟨.scalar "h", 1⟩)] ∧
        ((m.store.scope 1).completed, (m.store.scope 1).error) = (false, none) ∧
        ((m.store.scope 0).completed, (m.store.scope 0).error) =
          (true, some "execution cancelled") := by
  exact ⟨rfl, by decide +kernel, by decide +kernel, by decide +kernel⟩

end Runbook
