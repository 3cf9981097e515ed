import Mathlib.Data.List.Nodup
import Runbook.Proofs.Run.Outcome
import Runbook.Proofs.Run.Rounds

namespace Runbook

/-!
# Running a graph — the histories of loops

Once a loop is over, its record lists the iterations that it has gone through.  This file shows that
nothing is missing from the list and nothing is on it twice.

* `Occurrence.child?`, `Exec.numbers` — the scopes of iterations are the ones that a run opens, in
  order, so that no two iterations share one;
* `Story.of_loop` — the record of a loop and its story;
* `LoopRecord.Lists` — what the record of a loop says of its rounds;
* `chronicled_start` — after the first run of a graph that was built, the records of all loops do
  so.
-/

/-! ### Scopes of iterations -/

/-- The scope of an iteration that begins. -/
def Occurrence.child? : Occurrence → Option ScopeId
  | changed _ (.startIteration _ _ _ child) => some child
  | _ => none

/-- The iterations that begin in a stretch take the scopes that are opened there, in order. -/
def Numbers (m : Machine) (happened : List Occurrence) : Prop :=
  happened.filterMap Occurrence.child? =
    List.range' m.store.size (happened.countP Occurrence.opens)

/-- No iteration begins, and no scope is opened. -/
def Childless (happened : List Occurrence) : Prop :=
  ∀ o ∈ happened, o.child? = none ∧ o.opens = false

namespace Childless

variable {happened before after : List Occurrence}

/-- Two stretches in a row without iterations. -/
theorem append (h : Childless before) (h' : Childless after) : Childless (before ++ after) :=
  fun o ho => (List.mem_append.1 ho).elim (h o) (h' o)

/-- A single occurrence that starts no iteration and opens no scope. -/
theorem singleton {o : Occurrence} (hchild : o.child? = none) (hopens : o.opens = false) :
    Childless [o] := by
  intro o' ho'
  rw [List.mem_singleton.1 ho']
  exact ⟨hchild, hopens⟩

/-- What comes from outside starts no iteration. -/
theorem foreign {root : ScopeId} (h : ∀ o ∈ happened, o.IsForeign root) : Childless happened := by
  intro o ho
  have hforeign := h o ho
  cases o with
  | interrupted | published | cancelled => exact ⟨rfl, rfl⟩
  | opened | changed | called => exact absurd hforeign fun hf => hf

/-- What is published starts no iteration. -/
theorem publication (scopes : List ScopeId) (values : Dict String Value) :
    Childless (Occurrence.publication scopes values) := by
  intro o ho
  rw [Occurrence.eq_of_mem_publication ho]
  exact ⟨rfl, rfl⟩

/-- No scope of an iteration is named. -/
theorem filterMap_child? (h : Childless happened) : happened.filterMap Occurrence.child? = [] :=
  List.filterMap_eq_nil_iff.2 fun o ho => (h o ho).1

/-- No scope is opened. -/
theorem countP_opens (h : Childless happened) : happened.countP Occurrence.opens = 0 :=
  List.countP_eq_zero.2 fun o ho => by simp [(h o ho).2]

/-- Without iterations there is nothing to number. -/
theorem numbers (h : Childless happened) (m : Machine) : Numbers m happened := by
  rw [Numbers, h.filterMap_child?, h.countP_opens]
  rfl

end Childless

namespace Numbers

variable {m m₁ : Machine} {backend : Backend} {before after : List Occurrence}

/-- The second stretch goes on numbering where the first has left the store. -/
theorem append (h : Numbers m before) (hext : Extends backend m before m₁)
    (h' : Numbers m₁ after) : Numbers m (before ++ after) := by
  unfold Numbers at *
  rw [List.filterMap_append, h, h', hext.size, List.countP_append, List.range'_append_1]

/-- What follows without iterations leaves the numbers alone. -/
theorem andChildless (h : Numbers m before) (h' : Childless after) :
    Numbers m (before ++ after) := by
  unfold Numbers at *
  rw [List.filterMap_append, h, h'.filterMap_child?, List.append_nil, List.countP_append,
    h'.countP_opens, Nat.add_zero]

end Numbers

variable {x : Execution} {frame : Frame} {m m₁ m' : Machine} {happened : List Occurrence}

/-- A wait, with the change before it. -/
theorem Awaited.childless {c : Change} {id : String} {limit : Nat} {tokens : List String}
    {answer : Except WaitError (List Value)} (hm : m.Ready frame)
    (h : Awaited frame id limit tokens (m.change frame.top c) happened answer m')
    (hc : (Occurrence.changed frame.top c).child? = none) :
    Childless ([.changed frame.top c] ++ happened) :=
  (Childless.singleton hc rfl).append (.foreign (h.foreign_after hm))

/-- The call of an action after its waits, with what is heard during it. -/
theorem Awaited.childless_call {c c' : Change} {id : String} {limit : Nat} {tokens : List String}
    {values : List Value} {call : ActionCall} {answer : Except ActionError ActionResult}
    {heard : List Occurrence} (hm : m.Ready frame)
    (h : Awaited frame id limit tokens (m.change frame.top c) happened (.ok values) m₁)
    (hcall : Called x frame id call (m₁.change frame.top c') answer heard m') :
    Childless ([.called frame.top id call answer] ++ heard) :=
  (Childless.singleton rfl rfl).append (.foreign (h.heard_foreign hm hcall))

/-- An action runs nothing inside it. -/
theorem Acts.childless {id urn : String} {params exports : Dict String String} {outcome : Outcome}
    (h : Acts x frame id urn params exports m happened outcome m') (hm : m.Ready frame) :
    Childless happened := by
  cases h with
  | starved hw => exact (hw.childless hm rfl).append (.singleton rfl rfl)
  | failed hw hcall =>
    exact (((hw.childless hm rfl).append (.singleton rfl rfl)).append
      (hw.childless_call hm hcall)).append (.singleton rfl rfl)
  | done hw hcall =>
    exact ((((hw.childless hm rfl).append (.singleton rfl rfl)).append
      (hw.childless_call hm hcall)).append (.publication _ _)).append (.singleton rfl rfl)

/-- Deciding runs nothing yet. -/
theorem Decides.childless {id condition : String} {answer : Except Failure Bool}
    (h : Decides x frame id condition m happened answer m') (hm : m.Ready frame) :
    Childless happened := by
  cases h with
  | malformed => exact (Childless.singleton rfl rfl).append (.singleton rfl rfl)
  | starved _ hw | undecidable _ hw | decided _ hw =>
    exact (hw.childless hm rfl).append (.singleton rfl rfl)

/-- An iteration gets the next number of the store. -/
theorem numbers_openingOf (m : Machine) (frame : Frame) (id : String) (itemAs : Option String)
    (index : Nat) (v : Value) : Numbers m (openingOf frame id itemAs index v m.store.size) := by
  cases itemAs <;> rfl

/-- **Scopes of iterations.** They are the scopes that a run opens, in order. -/
theorem Exec.numbers {task : Task} {outcome : Outcome}
    (h : Exec x frame task m happened outcome m') (hm : m.Ready frame) : Numbers m happened := by
  induction h with
  | nil | stopped | noRounds => rfl
  | failed _ _ ih | lastRound _ ih => exact ih hm
  | cons _ h _ ih ih' | nextRound h _ ih ih' =>
    have hext := h.extends hm
    exact (ih hm).append hext (ih' (hext.ready hm))
  | action h => exact (h.childless hm).numbers _
  | undecided h => exact (h.childless hm).numbers _
  | decided h _ ih =>
    have hext := h.extends hm
    exact ((h.childless hm).numbers _).append hext (ih (hext.ready hm))
  | starved hw => exact ((hw.childless hm rfl).append (.singleton rfl rfl)).numbers _
  | broken hw _ ih =>
    have hext := hw.extends_after x.backend hm
    exact ((hw.childless hm rfl).numbers _).append hext (ih (hext.ready hm))
  | finished hw _ ih =>
    have hext := hw.extends_after x.backend hm
    exact (((hw.childless hm rfl).numbers _).append hext (ih (hext.ready hm))).andChildless
      (.singleton rfl rfl)
  | refused => exact (Childless.singleton rfl rfl).numbers _
  | completed _ _ ih | passed _ _ _ _ ih | interrupted _ _ ih =>
    obtain ⟨hopen, hready⟩ := extends_openIteration x.backend hm _ _ _ _
    exact ((numbers_openingOf _ _ _ _ _ _).append hopen (ih hready)).andChildless
      (.singleton rfl rfl)
  | halted _ _ _ _ ih =>
    obtain ⟨hopen, hready⟩ := extends_openIteration x.backend hm _ _ _ _
    exact (((numbers_openingOf _ _ _ _ _ _).append hopen (ih hready)).andChildless
      (.singleton rfl rfl)).andChildless (.singleton rfl rfl)

/-- No scope is taken by two iterations. -/
theorem eq_of_child? {course : List Occurrence} (h : (course.filterMap Occurrence.child?).Nodup)
    {o o' : Occurrence} (ho : o ∈ course) (ho' : o' ∈ course) {t : ScopeId}
    (ht : o.child? = some t) (ht' : o'.child? = some t) : o = o' := by
  obtain ⟨before, after, rfl⟩ := List.append_of_mem ho
  rw [List.filterMap_append, List.filterMap_cons_some ht, List.nodup_middle, List.nodup_cons,
    ← List.filterMap_append] at h
  by_contra hne
  refine h.1 (List.mem_filterMap.2 ⟨o', ?_, ht'⟩)
  rcases List.mem_append.1 ho' with ho' | ho'
  · exact List.mem_append_left _ ho'
  · exact List.mem_append_right _ ((List.mem_cons.1 ho').resolve_left (Ne.symm hne))

/-! ### Records of loops -/

/-- A story that leaves the record of a loop behind goes through the iterations on the record. -/
theorem Story.of_loop {s : ScopeId} {n : Node} {story : List Occurrence} {r : LoopRecord}
    (h : Story s n story) (hr : ((Scope.leftBy s story).recordsOf n.id).2.2 = some r) :
    ∃ its c, (c = .finishLoop n.id ∨ ∃ reason, c = .failLoop n.id reason) ∧
      story = [.changed s (.startLoop n.id true)] ++ iterationsOf s n.id 1 its ++ [.changed s c] ∧
      r = .over its (c.failure?.map Prod.snd) := by
  rw [Scope.leftBy_eq_after] at hr
  cases h with
  | broken its f =>
    rw [Node.id, recordsOf_loop _ (.inr ⟨_, rfl⟩)] at hr
    exact ⟨its, _, .inr ⟨_, rfl⟩, rfl, (Option.some.inj hr).symm⟩
  | finished its =>
    rw [Node.id, recordsOf_loop _ (.inl rfl)] at hr
    exact ⟨its, _, .inl rfl, rfl, (Option.some.inj hr).symm⟩
  | starved => rw [Node.id, recordsOf_starved] at hr; cases hr
  | failed => rw [Node.id, recordsOf_failed] at hr; cases hr
  | done => rw [Node.id, recordsOf_done] at hr; cases hr
  | undecided => rw [Node.id, recordsOf_undecided] at hr; cases hr
  | decided => rw [Node.id, recordsOf_decided] at hr; cases hr

/-- The story of a loop is not a part of a longer one. -/
theorem eq_nil_of_story {s : ScopeId} {id : String} {its its' : List Iteration} {c c' : Change}
    {before after : List Occurrence}
    (hc : c = .finishLoop id ∨ ∃ reason, c = .failLoop id reason)
    (hc' : c' = .finishLoop id ∨ ∃ reason, c' = .failLoop id reason)
    (h : before ++ ([.changed s (.startLoop id true)] ++ iterationsOf s id 1 its ++
        [.changed s c]) ++ after =
      [.changed s (.startLoop id true)] ++ iterationsOf s id 1 its' ++ [.changed s c']) :
    before = [] ∧ after = [] := by
  have hits : ∀ d, (∀ k v t, d ≠ .startIteration id k v t) →
      .changed s d ∉ iterationsOf s id 1 its' := by
    intro d hd hmem
    obtain ⟨k, i, -, heq⟩ := eq_of_mem_iterationsOf hmem
    exact hd _ _ _ (Occurrence.changed.inj heq).2
  constructor
  · -- A loop starts only once.
    cases before with
    | nil => rfl
    | cons o before =>
      simp only [List.append_assoc, List.cons_append, List.nil_append, List.cons.injEq] at h
      have hmem : .changed s (.startLoop id true) ∈
          iterationsOf s id 1 its' ++ [.changed s c'] := by
        rw [← h.2]
        simp
      rcases List.mem_append.1 hmem with hmem | hmem
      · exact absurd hmem (hits _ fun _ _ _ => by simp)
      · rcases hc' with rfl | ⟨reason, rfl⟩ <;> simp at hmem
  · -- It ends only once.
    rcases List.eq_nil_or_concat' after with rfl | ⟨after, o, rfl⟩
    · rfl
    · rw [← List.append_assoc] at h
      have hinit := (List.append_inj_left' h rfl)
      have hmem : .changed s c ∈ [.changed s (.startLoop id true)] ++ iterationsOf s id 1 its' := by
        rw [← hinit]
        simp
      rcases List.mem_append.1 hmem with hmem | hmem
      · rcases hc with rfl | ⟨reason, rfl⟩ <;> simp at hmem
      · refine absurd hmem (hits c fun k v t => ?_)
        rcases hc with rfl | ⟨reason, rfl⟩ <;> simp

/-- The numbers of the iterations on record are the ones that they began with. -/
theorem mem_iterationsOf_of_numbered {s : ScopeId} {id : String} {its : List Iteration} {k : Int}
    {i : Iteration} (h : (k, i) ∈ numbered its) :
    .changed s (.startIteration id k i.value i.scope) ∈ iterationsOf s id 1 its := by
  obtain ⟨p, hp, heq⟩ := List.mem_map.1 h
  obtain ⟨rfl, rfl⟩ := Prod.mk.inj heq
  rw [iterationsOf_eq_map]
  exact List.mem_map_of_mem hp

/-! ### What the record of a loop says -/

/-- What the record of the loop `id` in a frame says of its rounds over some values, at the end of a
    run from `first` to `m`. -/
structure LoopRecord.Lists (x : Execution) (first : Machine) (outcome : Outcome) (m : Machine)
    (frame : Frame) (id : String) (body : List Node) (values : List Value) (r : LoopRecord)
    (rounds : List Round) : Prop where
  /-- The rounds are in the history under their numbers, counted from 1. -/
  history : r.history.entries = numbered (rounds.map (·.toIteration))
  index : r.index = lastIndex (rounds.map (·.toIteration))
  /-- They are over the first values, in order. -/
  inOrder : rounds.map (·.value) <+: values
  /-- The run has come to the body of the loop in each round, and it ended as the round says. -/
  bodies : ∀ k p, rounds[k]? = some p → ∃ m₀,
    Reaches x (x.opening first) ⟨frame.inner id (1 + k) p.scope, .nodes body, m₀⟩ ∧
      ((Run.runNodes x (frame.inner id (1 + k) p.scope) body).on m₀).1 = p.outcome
  /-- No other iteration of the loop has begun. -/
  story : ∃ c, aboutNode frame.top id m.course = [.changed frame.top (.startLoop id true)] ++
    iterationsOf frame.top id 1 (rounds.map (·.toIteration)) ++ [.changed frame.top c]
  /-- Without an error no value is left out. -/
  complete : r.error = none → rounds.map (·.value) = values
  /-- If failed iterations are passed over, a loop ends with an error only if the run is
      cancelled. -/
  proceed : x.options.onFailure = .proceed → outcome.status ≠ .cancelled → r.error = none
  /-- If they halt the loop, the last round is the first one that failed. -/
  halt : x.options.onFailure = .halt →
    ∀ e, r.error = some e → e ≠ Failure.cancelled.message → ∃ init last,
      rounds = init ++ [last] ∧ (∀ p ∈ init, p.outcome = .ok ()) ∧ last.outcome.status = .halted
  /-- The scope of a round is in error just if its body halted, namely with the failure of the
      body. -/
  errors : ∀ p ∈ rounds, (m.store.scope p.scope).error = p.outcome.leftError ∧
    ((m.store.scope p.scope).error.isSome ↔ p.outcome.status = .halted)

/-- A record tells how a loop is run that a run from `first` to `m` comes to on `m₀`. -/
structure LoopRecord.Chronicles (x : Execution) (first : Machine) (outcome : Outcome) (m : Machine)
    (frame : Frame) (id elements : String) (itemAs : Option String) (body : List Node)
    (m₀ : Machine) (r : LoopRecord) : Prop where
  reached : Reaches x (x.opening first) ⟨frame, .node (.loop id elements itemAs body), m₀⟩
  unresolved : ∀ e m₁, x.awaitElements frame id elements m₀ = (.error e, m₁) →
    r.history = ∅ ∧ r.index = -1
  resolved : ∀ v m₁, x.awaitElements frame id elements m₀ = (.ok v, m₁) →
    ∃ rounds, r.Lists x first outcome m frame id body v.expand rounds

/-- The records of all loops tell how the loops were run on the way from `first` to `m`. -/
structure Chronicled (x : Execution) (first : Machine) (outcome : Outcome) (m : Machine) :
    Prop where
  loops : ∀ s id r, (m.store.scope s).loops.get? id = some r → ∃ frame elements itemAs body m₀,
    frame.top = s ∧ r.Chronicles x first outcome m frame id elements itemAs body m₀
  /-- No two iterations of any loops share a scope. -/
  scopes : ∀ s id r k i, (m.store.scope s).loops.get? id = some r → r.history.get? k = some i →
    ∀ s' id' r' k' i', (m.store.scope s').loops.get? id' = some r' → r'.history.get? k' = some i' →
      i.scope = i'.scope → s = s' ∧ id = id' ∧ k = k'

section

variable {seed : Dict String Value} {scopes : ScopeId → Prop} {nodes : List Node}

/-- The story of a loop is found on its record. -/
theorem Tells.of_loop (h : Tells scopes nodes m.course) (hm : m.Sound x.backend seed) {s : ScopeId}
    {id : String} {r : LoopRecord} (hr : (m.store.scope s).loops.get? id = some r) :
    ∃ its c, (c = .finishLoop id ∨ ∃ reason, c = .failLoop id reason) ∧
      aboutNode s id m.course = [.changed s (.startLoop id true)] ++ iterationsOf s id 1 its ++
        [.changed s c] ∧ r = .over its (c.failure?.map Prod.snd) := by
  have hrecord : ((Scope.leftBy s (aboutNode s id m.course)).recordsOf id).2.2 = some r := by
    rw [← hm.recordsOf]
    exact hr
  have htold : aboutNode s id m.course ≠ [] := by
    intro hnil
    rw [hnil] at hrecord
    cases hrecord
  obtain ⟨-, n, -, rfl, hstory⟩ := h s id htold
  exact hstory.of_loop hrecord

/-- What is on record as an iteration has begun as one. -/
theorem Tells.began (h : Tells scopes nodes m.course) (hm : m.Sound x.backend seed) {s : ScopeId}
    {id : String} {r : LoopRecord} {k : Int} {i : Iteration}
    (hr : (m.store.scope s).loops.get? id = some r) (hi : r.history.get? k = some i) :
    .changed s (.startIteration id k i.value i.scope) ∈ m.course := by
  obtain ⟨its, c, -, hstory, rfl⟩ := h.of_loop hm hr
  have hentry := Dict.mem_entries.2 hi
  rw [LoopRecord.over, entries_historyOf] at hentry
  have hmem : .changed s (.startIteration id k i.value i.scope) ∈ aboutNode s id m.course := by
    rw [hstory]
    exact List.mem_append_left _ (List.mem_append_right _ (mem_iterationsOf_of_numbered hentry))
  exact (mem_aboutNode.1 hmem).1

end

/-- A loop that has gone through rounds over some values lists them on its record. -/
theorem Passes.lists {frame : Frame} {id : String} {itemAs : Option String} {body : List Node}
    {values : List Value} {first : Machine} {outcome ended : Outcome} {rounds : List Round}
    (h : Passes x ⟨frame, .rounds id itemAs body 1 values, m₁⟩ id body 1 values happened ended m
      rounds)
    (hreaches : Reaches x (x.opening first) ⟨frame, .rounds id itemAs body 1 values, m₁⟩)
    (hstory : aboutNode frame.top id m.course = [.changed frame.top (.startLoop id true)] ++
      iterationsOf frame.top id 1 (rounds.map (·.toIteration)) ++
        [.changed frame.top (ended.endOfLoop id)])
    (hcancels : ended = .error .cancelled → outcome = .error .cancelled) :
    (LoopRecord.over (rounds.map (·.toIteration)) (ended.failure?.map Failure.recordText)).Lists x
      first outcome m frame id body values rounds := by
  constructor
  case history => exact entries_historyOf _
  case index => rfl
  case inOrder => exact h.inOrder
  case bodies =>
    intro k p hp
    obtain ⟨m₀, hbody, hended⟩ := h.bodies k p hp
    exact ⟨m₀, hreaches.trans hbody, hended⟩
  case story => exact ⟨_, hstory⟩
  case complete =>
    intro hnone
    rcases ended with f | ⟨⟩
    · cases hnone
    · exact (h.complete rfl).1
  case proceed =>
    intro hproceed hstatus
    rcases ended with f | ⟨⟩
    · by_cases hf : f = .cancelled
      · -- The cancelled loop ends the whole run.
        exact absurd (Outcome.status_cancelled.2 (hcancels (by rw [hf]))) hstatus
      · -- A failure halts the rounds, against the policy.
        rw [(h.broken f rfl hf).1] at hproceed
        cases hproceed
    · rfl
  case halt =>
    intro _ e he hne
    rcases ended with f | ⟨⟩
    · refine (h.broken f rfl fun hf => hne ?_).2
      rw [hf] at he
      exact (Option.some.inj he).symm
    · cases he
  case errors =>
    intro p hp
    rw [h.errors p hp]
    exact ⟨rfl, p.outcome.isSome_leftError⟩

/-- A loop whose rounds and end are told of has them on record. -/
theorem Machine.Sound.loop_eq_over {backend : Backend} {seed : Dict String Value} {s : ScopeId}
    {id : String} {r : LoopRecord} {its : List Iteration} {ended : Outcome}
    (hm : m.Sound backend seed)
    (hstory : aboutNode s id m.course = [.changed s (.startLoop id true)] ++
      iterationsOf s id 1 its ++ [.changed s (ended.endOfLoop id)])
    (hr : (m.store.scope s).loops.get? id = some r) :
    r = .over its (ended.failure?.map Failure.recordText) := by
  have hrecords := hm.recordsOf s id
  rw [hstory, Scope.leftBy_eq_after, recordsOf_loop _ (ended.endOfLoop_eq id),
    ended.failure?_endOfLoop] at hrecords
  exact Option.some.inj (hr.symm.trans (congrArg (fun records => records.2.2) hrecords))

/-- A loop that a run has come to leaves its record behind.  After the run nothing happens but the
    closing of the scope of the whole runbook. -/
theorem Visits.chronicles {first : Machine} {outcome : Outcome} {seed : Dict String Value}
    {s : ScopeId} {id : String} {r : LoopRecord} {its : List Iteration} {c : Change}
    (h : Visits x (x.opening first) happened outcome m₁ s (.startLoop id true))
    (hfirst : first.Sound x.backend seed) (hm : m.Sound x.backend seed)
    (hend : m = m₁.change first.root outcome.closing)
    (hcourse : m.course = happened ++ [.changed first.root outcome.closing])
    (hc : c = .finishLoop id ∨ ∃ reason, c = .failLoop id reason)
    (hstory : aboutNode s id m.course = [.changed s (.startLoop id true)] ++
      iterationsOf s id 1 its ++ [.changed s c])
    (hr : (m.store.scope s).loops.get? id = some r) :
    ∃ frame elements itemAs body m₀, frame.top = s ∧
      r.Chronicles x first outcome m frame id elements itemAs body m₀ := by
  obtain ⟨rfl, hbegins, hreaches, hready, hexec, rfl, hearlier, hlater, hleaves, hcancels⟩ := h
  rename_i frame n m₀ m₂ before during after ended
  cases n with
  | action | choice => cases hbegins
  | loop id' elements itemAs body =>
    obtain rfl := (Change.startLoop.inj hbegins).1
    have hsound₀ := hearlier.sound seed hfirst
    have hsound₂ := (hexec.extends hready).sound seed hsound₀
    obtain ⟨rounds, hown, hnone, hrounds⟩ := hexec.passes_loop hready hsound₀
    -- All that is told of the loop is told of it here.
    have hclosing : aboutNode frame.top id' [.changed first.root outcome.closing] = [] := by
      refine aboutNode_eq_nil fun o ho => ?_
      rw [List.mem_singleton.1 ho, Occurrence.about?, outcome.closing_of.2]
      simp
    have hparts := hstory
    rw [hcourse, aboutNode_append, aboutNode_append, aboutNode_append, hclosing, List.append_nil,
      hown] at hparts
    obtain ⟨hbefore, hafter⟩ := eq_nil_of_story (ended.endOfLoop_eq id') hc hparts
    rw [hbefore, hafter, List.nil_append, List.append_nil, ← hstory] at hparts
    -- So the record of the loop lists its rounds.
    obtain rfl := hm.loop_eq_over hparts.symm hr
    refine ⟨frame, elements, itemAs, body, m₀, rfl, hreaches, fun e m₁ he => ?_, fun v m₃ hv => ?_⟩
    · rw [hnone e m₁ he]
      exact ⟨rfl, rfl⟩
    · obtain ⟨hle, during, hpasses⟩ := hrounds v m₃ hv
      have hopened : ∀ p ∈ rounds, Opened m₀ m₂ p.scope := fun p hp =>
        (hpasses.opened p hp).weaken hle (Nat.le_refl _)
      have hroot : first.root < m₀.store.size := hearlier.root ▸ hready.root
      have hsize : first.root < m₁.store.size := Nat.lt_of_lt_of_le hroot
        ((hexec.extends hready).trans hlater).size_le
      have hclose : Extends x.backend m₁ [.changed first.root outcome.closing] m :=
        hend ▸ .change hsize _
      -- The scopes of the rounds are younger than the scope of the whole runbook.
      have hfinal := hpasses.goOn (hlater.trans hclose) hsound₂ fun p hp =>
        (hleaves _ (hopened p hp)).append
          (.change fun heq => absurd (Nat.lt_of_lt_of_le hroot (hopened p hp).1)
            (Nat.not_lt_of_le (Nat.le_of_eq heq.symm)))
      exact ⟨rounds, hfinal.lists (hreaches.trans (.single (.rounds hv)))
        hparts.symm hcancels⟩

/-- **Histories.** After the first run of a graph that was built, the records of loops tell how the
    loops were run. -/
theorem chronicled_start {document : List Step} {ids rest : IdSource} (x : Execution)
    (h : Graph.build document ids = (.ok x.graph, rest)) (seed : Dict String Value)
    (events : List Event) :
    Chronicled x (.scheduled seed events) (x.start (.scheduled seed events)).1
      (x.start (.scheduled seed events)).2 := by
  obtain ⟨-, hd⟩ := Graph.build_ok h
  have htells := tells_start x seed events hd
  obtain ⟨happened, hstarted, hcourse, hsound⟩ := start_scheduled x seed events
  obtain ⟨m₁, hexec, hend⟩ := hstarted.exec
  have hready := hstarted.ready
  generalize x.start (.scheduled seed events) = ended at *
  obtain ⟨outcome, m⟩ := ended
  dsimp only at *
  constructor
  case loops =>
    intro s id r hr
    obtain ⟨its, c, hc, hstory, -⟩ := htells.of_loop hsound hr
    -- The loop has started in the run, so the run has come to it.
    have hstart : .changed s (.startLoop id true) ∈ happened := by
      have hmem : .changed s (.startLoop id true) ∈ aboutNode s id m.course := by
        rw [hstory]
        simp
      rw [mem_aboutNode, hcourse] at hmem
      refine (List.mem_append.1 hmem.1).resolve_right (not_mem_changed rfl ?_)
      rcases outcome with f | ⟨⟩ <;> rfl
    exact (hexec.visits hready hstart rfl).chronicles (Machine.sound_scheduled _ _ _) hsound hend
      hcourse hc hstory hr
  case scopes =>
    intro s id r k i hr hi s' id' r' k' i' hr' hi' heq
    have hclosing : (Occurrence.changed 0 outcome.closing).child? = none := by
      rcases outcome with f | ⟨⟩ <;> rfl
    have hnumbers := (hexec.numbers hready).andChildless (.singleton hclosing rfl)
    rw [Numbers, ← hcourse] at hnumbers
    have hsame := eq_of_child? (hnumbers ▸ List.nodup_range') (htells.began hsound hr hi)
      (htells.began hsound hr' hi') rfl (congrArg some heq.symm)
    obtain ⟨rfl, hchange⟩ := Occurrence.changed.inj hsame
    obtain ⟨rfl, rfl, -⟩ := Change.startIteration.inj hchange
    exact ⟨rfl, rfl, rfl⟩

/-- The loop in the choice has gone through two rounds. -/
theorem chronicled_nestedRun :
    Graph.build Graph.nestedSteps .fresh = (.ok nestedRun.graph, ⟨5⟩) ∧
      (((nestedRun.start (.scheduled ∅ nestedEvents)).2.store.scope 0).loops.get? "1").map
          (fun r => (r.index, r.history.entries)) =
        some (2, [(1, ⟨.scalar "p", 1⟩), (2, ⟨.scalar "q", 2⟩)]) ∧
      Chronicled nestedRun (.scheduled ∅ nestedEvents)
        (nestedRun.start (.scheduled ∅ nestedEvents)).1
        (nestedRun.start (.scheduled ∅ nestedEvents)).2 :=
  ⟨Graph.build_nestedSteps, by decide +kernel,
    chronicled_start nestedRun Graph.build_nestedSteps ∅ nestedEvents⟩

end Runbook
