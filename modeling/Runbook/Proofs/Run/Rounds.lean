import Runbook.Proofs.Run.FailStop
import Runbook.Proofs.Run.Stages

namespace Runbook

/-!
# Running a graph — the rounds of a loop

A loop runs its body for one element after the other, each time in a new scope.  This file lists
these rounds and says what each of them leaves behind.

* `Round` — an iteration and how its body ended;
* `Passes` — a stretch goes through rounds over some values.  Iterations do
  (`Exec.passes`), by induction on the values;
* `Outcome.leftError` — the error that a scope of an iteration is left with.
-/

open Run

/-- An iteration that a run has gone through, and how its body ended. -/
structure Round extends Iteration where
  outcome : Outcome

/-- The error that the scope of an iteration is left with.  The scope of a cancelled iteration stays
    open, and the others are closed with the failure of the body, if any. -/
def Outcome.leftError : Outcome → Option String
  | .ok () | .error .cancelled => none
  | .error f => some f.message

/-- An iteration leaves an error exactly if it has failed and was not cancelled. -/
theorem Outcome.isSome_leftError (outcome : Outcome) :
    outcome.leftError.isSome ↔ outcome.status = .halted := by
  rcases outcome with f | ⟨⟩
  · cases f <;> simp [leftError, status]
  · simp [leftError, status]

/-- A failure leaves its message. -/
theorem Outcome.leftError_error {f : Failure} (h : f ≠ .cancelled) :
    Outcome.leftError (.error f) = some f.message := by
  cases f with
  | cancelled => exact absurd rfl h
  | _ => rfl

/-- A failure other than a cancellation halts. -/
theorem Outcome.status_error {f : Failure} (h : f ≠ .cancelled) :
    Outcome.status (.error f) = .halted := by
  cases f with
  | cancelled => exact absurd rfl h
  | _ => rfl

/-- A stretch goes through the rounds of the loop `id` over some values, the first of them with
    number `index`.  It begins with the stage `start` and ends on `m'`. -/
structure Passes (x : Execution) (start : Stage) (id : String) (body : List Node) (index : Nat)
    (values : List Value) (happened : List Occurrence) (outcome : Outcome) (m' : Machine)
    (rounds : List Round) : Prop where
  inOrder : rounds.map (·.value) <+: values
  story : aboutNode start.frame.top id happened =
    iterationsOf start.frame.top id index (rounds.map (·.toIteration)) ++
      endingOf start.frame.top id outcome
  /-- The body is run in each round, and ends as the round says. -/
  bodies : ∀ k r, rounds[k]? = some r → ∃ m₀,
    Reaches x start ⟨start.frame.inner id (index + k) r.scope, .nodes body, m₀⟩ ∧
      ((runNodes x (start.frame.inner id (index + k) r.scope) body).on m₀).1 = r.outcome
  opened : ∀ r ∈ rounds, Opened start.machine m' r.scope
  errors : ∀ r ∈ rounds, (m'.store.scope r.scope).error = r.outcome.leftError
  /-- If all goes well, no value is left out, and no round was cancelled. -/
  complete : outcome = .ok () → rounds.map (·.value) = values ∧
    ∀ r ∈ rounds, r.outcome ≠ .error .cancelled ∧
      (x.options.onFailure = .halt → r.outcome = .ok ())
  /-- A failure of the loop is the one of the last round, and there is no earlier one. -/
  broken : ∀ f, outcome = .error f → f ≠ .cancelled → x.options.onFailure = .halt ∧
    ∃ init last, rounds = init ++ [last] ∧ (∀ r ∈ init, r.outcome = .ok ()) ∧
      last.outcome.status = .halted

/-- A scope that is not there yet is empty. -/
theorem Store.scope_of_size_le {s : Store} {id : ScopeId} (h : s.size ≤ id) : s.scope id = {} := by
  unfold size at h
  rw [scope, Array.getD_eq_getD_getElem?, Array.getElem?_eq_none h]
  rfl

/-- Opening an iteration closes no scope. -/
theorem leavesOpen_openingOf (frame : Frame) (id : String) (itemAs : Option String) (index : Nat)
    (v : Value) (scope s : ScopeId) : LeavesOpen s (openingOf frame id itemAs index v scope) := by
  have hopened : LeavesOpen s [.opened scope] := by
    intro o ho c hc
    rw [List.mem_singleton.1 ho] at hc
    exact absurd hc List.not_mem_nil
  refine (hopened.append (.change fun _ => rfl)).append fun o ho => ?_
  obtain ⟨name, -, rfl⟩ := List.mem_map.1 ho
  exact LeavesOpen.change (fun _ => rfl) _ (List.mem_singleton_self _)

/-- An execution tells nothing of older scopes than its own. -/
theorem Exec.aboutNode_eq_nil {x : Execution} {frame : Frame} {task : Task} {m m' : Machine}
    {happened : List Occurrence} {outcome : Outcome}
    (h : Exec x frame task m happened outcome m') (hm : m.Ready frame) {s : ScopeId}
    (hs : s ≠ frame.top) (hlt : s < m.store.size) (id : String) : aboutNode s id happened = [] := by
  refine Runbook.aboutNode_eq_nil fun o ho habout => ?_
  rcases (h.stops hm).confined.within o ho s id habout with heq | hopened
  · exact hs heq
  · exact Nat.not_le_of_lt hlt hopened.1

namespace Passes

variable {x : Execution} {frame : Frame} {id : String} {itemAs : Option String}
  {body : List Node} {index : Nat} {v : Value} {values : List Value} {m m₁ m' : Machine}
  {happened before after closing : List Occurrence} {outcome ended : Outcome}
  {rounds later : List Round} {seed : Dict String Value}

/-- No round at all. -/
theorem none (start : Stage)
    (hstory : aboutNode start.frame.top id happened = endingOf start.frame.top id outcome)
    (hok : outcome = .ok () → values = []) (hf : ∀ f, outcome = .error f → f = .cancelled) :
    Passes x start id body index values happened outcome m' [] where
  inOrder := List.nil_prefix
  story := hstory
  bodies k r hr := by cases hr
  opened r hr := absurd hr List.not_mem_nil
  errors r hr := absurd hr List.not_mem_nil
  complete h := ⟨(hok h).symm, fun r hr => absurd hr List.not_mem_nil⟩
  broken f h hne := absurd (hf f h) hne

/-- A single round, whose body has `ended`, and what closes it. -/
theorem of_round (hm : m.Ready frame) (hsound : m.Sound x.backend seed)
    (hc : frame.stack.isCancelled m.store = false)
    (h : Exec x (frame.inner id index m.store.size) (.nodes body)
      (m.openIteration frame id itemAs index v) happened ended m₁)
    (hext : Extends x.backend m₁ closing m')
    (hdeeds : deeds closing = endingOf frame.top id outcome)
    (hclosing : (closing.flatMap (Occurrence.changesOf m.store.size)).filterMap Change.closing? =
      ended.leftError.toList)
    (hok : outcome = .ok () → ended ≠ .error .cancelled ∧
      (x.options.onFailure = .halt → ended = .ok ()))
    (hbroken : ∀ f, outcome = .error f → f ≠ .cancelled →
      x.options.onFailure = .halt ∧ ended.status = .halted) :
    Passes x ⟨frame, .round id itemAs body index v, m⟩ id body index [v]
      (openingOf frame id itemAs index v m.store.size ++ happened ++ closing) outcome m'
      [⟨⟨v, m.store.size⟩, ended⟩] := by
  obtain ⟨hopen, hready⟩ := extends_openIteration x.backend hm id itemAs index v
  have hinner := h.extends hready
  have hsize := size_openIteration m frame id itemAs index v
  have hle := hinner.size_le
  have hle' := hext.size_le
  constructor
  case inOrder => exact List.prefix_rfl
  case story =>
    -- The body runs in scopes that are opened later than the scope of the loop.
    exact aboutNode_round (h.aboutNode_eq_nil hready (Nat.ne_of_lt hm.top)
      (Nat.lt_of_lt_of_le hm.top hopen.size_le) id) hdeeds
  case bodies =>
    intro k r hr
    cases k with
    | zero =>
      obtain rfl := Option.some.inj hr
      exact ⟨_, .single (.body hc), congrArg Prod.fst h.on_eq⟩
    | succ k => cases hr
  case opened =>
    intro r hr
    rw [List.mem_singleton.1 hr]
    have hlt : m.store.size < m'.store.size := by omega
    exact ⟨Nat.le_refl _, hlt⟩
  case errors =>
    intro r hr
    rw [List.mem_singleton.1 hr]
    -- The scope was empty before the round, and the body leaves it open.
    have hbody : LeavesOpen m.store.size happened :=
      (h.stays hready).leavesOpen fun hopened => by
        have := hopened.1
        omega
    have hbefore := ((leavesOpen_openingOf frame id itemAs index v m.store.size _).append
      hbody).error_eq (hopen.trans hinner) hsound
    rw [Store.scope_of_size_le (Nat.le_refl _)] at hbefore
    rw [hext.scope ((hopen.trans hinner).sound seed hsound), Scope.error_foldl, hclosing, hbefore]
    cases ended.leftError <;> rfl
  case complete =>
    intro h
    refine ⟨rfl, fun r hr => ?_⟩
    rw [List.mem_singleton.1 hr]
    exact hok h
  case broken =>
    intro f hf hne
    obtain ⟨hhalt, hended⟩ := hbroken f hf hne
    exact ⟨hhalt, [], _, rfl, fun r hr => absurd hr List.not_mem_nil, hended⟩

/-- Rounds in which all goes well, and the rounds after them. -/
theorem append {start next : Stage} {values' : List Value}
    (h : Passes x start id body index values before (.ok ()) m₁ rounds)
    (h' : Passes x next id body (index + values.length) values' after outcome m' later)
    (hreach : Reaches x start next) (hframe : next.frame = start.frame)
    (hm₁ : next.machine = m₁) (hle : start.machine.store.size ≤ m₁.store.size)
    (hle' : m₁.store.size ≤ m'.store.size)
    (hkeep : ∀ s, s < m₁.store.size → (m'.store.scope s).error = (m₁.store.scope s).error) :
    Passes x start id body index (values ++ values') (before ++ after) outcome m'
      (rounds ++ later) := by
  obtain ⟨hall, hrounds⟩ := h.complete rfl
  have hlength : rounds.length = values.length := by rw [← hall, List.length_map]
  constructor
  case inOrder =>
    rw [List.map_append, hall]
    exact (List.prefix_append_right_inj _).2 h'.inOrder
  case story =>
    have hafter := h'.story
    rw [hframe] at hafter
    rw [aboutNode_append, h.story, hafter, endingOf, List.append_nil, List.map_append,
      iterationsOf_append, List.length_map, hlength, List.append_assoc]
  case bodies =>
    intro k r hr
    by_cases hk : k < rounds.length
    · rw [List.getElem?_append_left hk] at hr
      exact h.bodies k r hr
    · -- A later round counts from the rounds before it.
      rw [List.getElem?_append_right (Nat.le_of_not_lt hk)] at hr
      obtain ⟨m₀, hbody, hended⟩ := h'.bodies _ r hr
      have hindex : index + values.length + (k - rounds.length) = index + k := by omega
      rw [hframe, hindex] at hbody hended
      exact ⟨m₀, hreach.trans hbody, hended⟩
  case opened =>
    intro r hr
    -- The scopes opened earlier lie below those opened later.
    rcases List.mem_append.1 hr with hr | hr
    · exact (h.opened r hr).weaken (Nat.le_refl _) hle'
    · have hopened := h'.opened r hr
      rw [hm₁] at hopened
      exact hopened.weaken hle (Nat.le_refl _)
  case errors =>
    intro r hr
    rcases List.mem_append.1 hr with hr | hr
    · -- Nothing that comes later touches the scope of an earlier round.
      rw [hkeep _ (h.opened r hr).2, h.errors r hr]
    · exact h'.errors r hr
  case complete =>
    intro hok
    obtain ⟨hall', hlater⟩ := h'.complete hok
    refine ⟨by rw [List.map_append, hall, hall'], fun r hr => ?_⟩
    exact (List.mem_append.1 hr).elim (hrounds r) (hlater r)
  case broken =>
    intro f hf hne
    obtain ⟨hhalt, init, last, rfl, hinit, hlast⟩ := h'.broken f hf hne
    -- A failure halts the later rounds, and all rounds before them have gone well.
    refine ⟨hhalt, rounds ++ init, last, (List.append_assoc ..).symm, fun r hr => ?_, hlast⟩
    exact (List.mem_append.1 hr).elim (fun hr => (hrounds r hr).2 hhalt) (hinit r)

/-- The same rounds, from an earlier stage. -/
theorem of_enters {start first : Stage}
    (h : Passes x start id body index values happened outcome m' rounds)
    (henters : Enters x first start) (hframe : first.frame = start.frame)
    (hmachine : first.machine = start.machine) :
    Passes x first id body index values happened outcome m' rounds where
  inOrder := h.inOrder
  story := hframe ▸ h.story
  bodies k r hr := by
    obtain ⟨m₀, hbody, hended⟩ := h.bodies k r hr
    rw [hframe]
    exact ⟨m₀, .head henters hbody, hended⟩
  opened := hmachine ▸ h.opened
  errors := h.errors
  complete := h.complete
  broken := h.broken

/-- The same rounds, seen when the run has gone on. -/
theorem goOn {start : Stage}
    (h : Passes x start id body index values happened outcome m₁ rounds)
    (hext : Extends x.backend m₁ after m') (hsound : m₁.Sound x.backend seed)
    (hleaves : ∀ r ∈ rounds, LeavesOpen r.scope after) :
    Passes x start id body index values happened outcome m' rounds where
  inOrder := h.inOrder
  story := h.story
  bodies := h.bodies
  opened r hr := (h.opened r hr).weaken (Nat.le_refl _) hext.size_le
  errors r hr := ((hleaves r hr).error_eq hext hsound).trans (h.errors r hr)
  complete := h.complete
  broken := h.broken

/-- Rounds of which the last one ends the loop, so that some values are left over. -/
theorem stop {start : Stage} {f : Failure}
    (h : Passes x start id body index values happened (.error f) m' rounds)
    (values' : List Value) :
    Passes x start id body index (values ++ values') happened (.error f) m' rounds where
  inOrder := h.inOrder.trans (List.prefix_append _ _)
  story := h.story
  bodies := h.bodies
  opened := h.opened
  errors := h.errors
  complete hok := by cases hok
  broken := h.broken

end Passes

/-! ### Executions -/

variable {x : Execution} {frame : Frame} {id : String} {itemAs : Option String}
  {body : List Node} {m m' : Machine} {happened : List Occurrence} {outcome : Outcome}
  {seed : Dict String Value}

/-- A single iteration is a pass. -/
theorem Exec.passes_round {index : Nat} {v : Value}
    (h : Exec x frame (.round id itemAs body index v) m happened outcome m') (hm : m.Ready frame)
    (hsound : m.Sound x.backend seed) :
    ∃ rounds, Passes x ⟨frame, .round id itemAs body index v, m⟩ id body index [v] happened
      outcome m' rounds := by
  cases h with
  | refused =>
    have habout : ∀ o ∈ [Occurrence.changed frame.top (.failLoop id Failure.cancelled.recordText)],
        o.about? = some (frame.top, id) := by
      intro o ho
      rw [List.mem_singleton.1 ho]
      rfl
    -- A round that is refused never begins.
    exact ⟨[], .none _ (aboutNode_eq_self habout) (fun hok => by cases hok)
      fun f hf => (Except.error.inj hf).symm⟩
  | completed hc h =>
    obtain ⟨-, hready⟩ := extends_openIteration x.backend hm id itemAs index v
    refine ⟨_, .of_round hm hsound hc h (.change ((h.extends hready).ready hready).top _) rfl ?_
      (fun _ => ⟨by simp, fun _ => rfl⟩) fun f hf => by cases hf⟩
    simp [Occurrence.changesOf, Change.closing?, Outcome.leftError]
  | passed hc h hne hpolicy =>
    obtain ⟨-, hready⟩ := extends_openIteration x.backend hm id itemAs index v
    refine ⟨_, .of_round hm hsound hc h (.change ((h.extends hready).ready hready).top _) rfl ?_
      (fun _ => ⟨fun heq => hne (Except.error.inj heq), fun hhalt => ?_⟩) fun f hf => by cases hf⟩
    · simp [Occurrence.changesOf, Change.closing?, Outcome.leftError_error hne]
    · rw [hpolicy] at hhalt
      cases hhalt
  | @halted _ _ _ _ _ _ _ _ _ f hc h hne hpolicy =>
    obtain ⟨hopen, hready⟩ := extends_openIteration x.backend hm id itemAs index v
    have hinner := h.extends hready
    have hclose : Extends x.backend _ _ _ :=
      .change (hinner.ready hready).top (.closeWithError f.message)
    have hfail := hclose.trans (.change (((hopen.trans hinner).trans hclose).ready hm).top
      (.failLoop id (Failure.iterationFailed id index f).recordText))
    rw [List.append_assoc]
    refine ⟨_, .of_round hm hsound hc h hfail rfl ?_ (fun hok => by cases hok)
      fun _ _ _ => ⟨hpolicy, Outcome.status_error hne⟩⟩
    have hother : frame.top ≠ m.store.size := Nat.ne_of_lt hm.top
    simp [Occurrence.changesOf, Change.closing?, Outcome.leftError_error hne, hother]
  | interrupted hc h =>
    obtain ⟨hopen, hready⟩ := extends_openIteration x.backend hm id itemAs index v
    -- A cancelled round leaves its scope open; only the record of the loop is changed.
    have htop := ((hopen.trans (h.extends hready)).ready hm).top
    refine ⟨_, .of_round hm hsound hc h (.change htop _) rfl ?_ (fun hok => by cases hok)
      fun f hf hne => absurd (Except.error.inj hf).symm hne⟩
    have hother : frame.top ≠ m.store.size := Nat.ne_of_lt hm.top
    simp [Occurrence.changesOf, Outcome.leftError, hother]

/-- **Rounds.** Iterations go through rounds. -/
theorem Exec.passes {values : List Value} : ∀ {index : Nat} {m : Machine}
    {happened : List Occurrence},
    Exec x frame (.rounds id itemAs body index values) m happened outcome m' → m.Ready frame →
      m.Sound x.backend seed →
      ∃ rounds, Passes x ⟨frame, .rounds id itemAs body index values, m⟩ id body index values
        happened outcome m' rounds := by
  induction values with
  | nil =>
    intro index m happened h hm hsound
    cases h
    exact ⟨[], .none _ rfl (fun _ => rfl) fun f hf => by cases hf⟩
  | cons v rest ih =>
    intro index m happened h hm hsound
    cases h with
    | lastRound h =>
      obtain ⟨rounds, hround⟩ := h.passes_round hm hsound
      exact ⟨rounds, (hround.of_enters .round rfl rfl).stop rest⟩
    | nextRound h h' =>
      have hext := h.extends hm
      have hready := hext.ready hm
      have hafter := h'.extends hready
      obtain ⟨rounds, hround⟩ := h.passes_round hm hsound
      obtain ⟨later, hlater⟩ := ih h' hready (hext.sound seed hsound)
      have hfirst : Passes x ⟨frame, .rounds id itemAs body index (v :: rest), m⟩ id body index [v]
        _ (.ok ()) _ rounds := hround.of_enters .round rfl rfl
      exact ⟨rounds ++ later, hfirst.append hlater (.single (.nextRound h.on_eq)) rfl rfl
        hext.size_le hafter.size_le fun s hs => (h'.stays hready).error_eq hafter
          (hext.sound seed hsound) fun hopened => Nat.not_le_of_lt hs hopened.1⟩

/-- The change that ends a loop. -/
def Outcome.endOfLoop (id : String) : Outcome → Change
  | .ok () => .finishLoop id
  | .error f => .failLoop id f.recordText

/-- A loop ends by finishing or by failing. -/
theorem Outcome.endOfLoop_eq (id : String) (outcome : Outcome) :
    outcome.endOfLoop id = .finishLoop id ∨
      ∃ reason, outcome.endOfLoop id = .failLoop id reason := by
  rcases outcome with f | ⟨⟩
  · exact .inr ⟨_, rfl⟩
  · exact .inl rfl

/-- A loop that fails puts the failure of its iteration on record. -/
theorem Outcome.failure?_endOfLoop (id : String) (outcome : Outcome) :
    (outcome.endOfLoop id).failure?.map Prod.snd = outcome.failure?.map Failure.recordText := by
  rcases outcome with f | ⟨⟩ <;> rfl

/-- What is told of a loop before its elements are there. -/
theorem Awaited.aboutNode_startLoop {limit : Nat} {tokens : List String} {m₁ : Machine}
    {answer : Except WaitError (List Value)} {waited : List Occurrence} (hm : m.Ready frame)
    (h : Awaited frame id limit tokens (m.change frame.top (.startLoop id true)) waited answer m₁) :
    aboutNode frame.top id ([.changed frame.top (.startLoop id true)] ++ waited) =
      [.changed frame.top (.startLoop id true)] := by
  have hnone : aboutNode frame.top id waited = [] := aboutNode_eq_nil fun o ho => by
    rw [Occurrence.about?_of_foreign (h.foreign_after hm) o ho]
    simp
  have hstart : aboutNode frame.top id [.changed frame.top (.startLoop id true)] =
      [.changed frame.top (.startLoop id true)] := aboutNode_eq_self fun o ho => by
    rw [List.mem_singleton.1 ho]
    rfl
  rw [aboutNode_append, hnone, hstart, List.append_nil]

/-- The end of a loop is about the loop. -/
theorem aboutNode_endOfLoop (s : ScopeId) (id : String) (outcome : Outcome) :
    aboutNode s id [.changed s (outcome.endOfLoop id)] = [.changed s (outcome.endOfLoop id)] := by
  refine aboutNode_eq_self fun o ho => ?_
  rw [List.mem_singleton.1 ho]
  rcases outcome with f | ⟨⟩ <;> rfl

/-- **Loops.** A loop whose elements have come goes through rounds over them; otherwise there is no
    round. -/
theorem Exec.passes_loop {elements : String}
    (h : Exec x frame (.node (.loop id elements itemAs body)) m happened outcome m')
    (hm : m.Ready frame) (hsound : m.Sound x.backend seed) :
    ∃ rounds, aboutNode frame.top id happened =
        [.changed frame.top (.startLoop id true)] ++
          iterationsOf frame.top id 1 (rounds.map (·.toIteration)) ++
          [.changed frame.top (outcome.endOfLoop id)] ∧
      (∀ e m₁, x.awaitElements frame id elements m = (.error e, m₁) → rounds = []) ∧
      ∀ v m₁, x.awaitElements frame id elements m = (.ok v, m₁) → m.store.size ≤ m₁.store.size ∧
        ∃ during, Passes x ⟨frame, .rounds id itemAs body 1 v.expand, m₁⟩ id body 1 v.expand during
          outcome m' rounds := by
  cases h with
  | @starved _ _ _ _ _ _ _ _ e hw =>
    have hnone : x.awaitElements frame id elements m = (.error e, _) := hw.await_error
    refine ⟨[], ?_, fun _ _ _ => rfl, fun v m₁ hv => ?_⟩
    · rw [aboutNode_append, hw.aboutNode_startLoop hm]
      exact congrArg _ (aboutNode_endOfLoop frame.top id (.error (.ofWait id e)))
    · rw [hnone] at hv
      cases hv
  | @broken _ _ _ _ _ _ _ _ _ _ v f hw h =>
    have hcome : x.awaitElements frame id elements m = (.ok v, _) := hw.await_ok
    have hext := hw.extends_after x.backend hm
    obtain ⟨rounds, hpasses⟩ := h.passes (hext.ready hm) (hext.sound seed hsound)
    -- The failure of the rounds has ended the story already.
    refine ⟨rounds, ?_, fun e m₁ he => ?_, fun v' m₁ hv => ?_⟩
    · rw [aboutNode_append, hw.aboutNode_startLoop hm, hpasses.story, List.append_assoc]
      rfl
    · rw [hcome] at he
      cases he
    · obtain ⟨heq, rfl⟩ := Prod.mk.inj (hcome.symm.trans hv)
      obtain rfl := Except.ok.inj heq
      exact ⟨hext.size_le, _, hpasses⟩
  | @finished _ _ _ _ _ _ _ m₂ _ _ v hw h =>
    have hcome : x.awaitElements frame id elements m = (.ok v, _) := hw.await_ok
    have hext := hw.extends_after x.backend hm
    obtain ⟨rounds, hpasses⟩ := h.passes (hext.ready hm) (hext.sound seed hsound)
    refine ⟨rounds, ?_, fun e m₁ he => ?_, fun v' m₁ hv => ?_⟩
    · rw [aboutNode_append, aboutNode_append, hw.aboutNode_startLoop hm, hpasses.story, endingOf,
        List.append_nil]
      exact congrArg _ (aboutNode_endOfLoop frame.top id (.ok ()))
    · rw [hcome] at he
      cases he
    · obtain ⟨heq, rfl⟩ := Prod.mk.inj (hcome.symm.trans hv)
      obtain rfl := Except.ok.inj heq
      have hready := hext.ready hm
      have hafter := h.extends hready
      -- The end of the loop comes after the rounds, and changes none of their scopes.
      exact ⟨hext.size_le, _, hpasses.goOn (.change (hafter.ready hready).top _)
        (hafter.sound seed (hext.sound seed hsound)) fun _ _ => .change fun _ => rfl⟩

end Runbook
