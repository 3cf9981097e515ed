import Runbook.Proofs.Run.Errors
import Runbook.Proofs.Run.Start

namespace Runbook

/-!
# Running a graph — the first failure stops a scope

When a node fails, its scope comes to rest: no other node of the scope starts and no action is
called from it.  Loops that do not pass over failed iterations bring the whole run to rest.

* `Silences` — what a failure keeps from happening later;
* `Confined` — a stretch is about nodes of one scope and of the scopes opened in it, and its
  failures keep from happening what they should;
* `Stops` — how the failures of a stretch agree with its outcome.  Executions have it
  (`Exec.stops`), by induction;
* `failStop_start` — the law for whole runs, from the machine before the first run.
-/

/-- The node that a failure names. -/
def Failure.node? : Failure → Option String
  | dependencyTimeout node _ | actionFailed node _ | conditionUndecidable node _ _
  | conditionMalformed node _ | iterationFailed node _ _ => some node
  | cancelled => none

/-! ### What a failure keeps from happening -/

namespace Occurrence

/-- Whether a node fails by an occurrence. -/
def fails (o : Occurrence) : Prop := ∃ s e, o.failureIn s = some e

/-- Whether a scope is closed with an error. -/
def closesInError : Occurrence → Bool
  | changed _ (.closeWithError _) => true
  | _ => false

end Occurrence

/-- After a failure nothing is about a node of the scope.  If the failure of an iteration halts the
    loop, no action is called from any scope either. -/
def Silences (policy : FailurePolicy) (earlier later : Occurrence) : Prop :=
  Rests earlier later ∧ (policy = .halt → earlier.fails → later.call? = none)

variable {policy : FailurePolicy} {top : ScopeId} {before after happened : List Occurrence}

/-- What is no failure silences nothing. -/
theorem silences_of_not_fails {o : Occurrence} (h : ¬ o.fails) (later : Occurrence) :
    Silences policy o later :=
  ⟨fun s e he => absurd ⟨s, e, he⟩ h, fun _ hfails => absurd hfails h⟩

/-- Nothing fails, and nothing is about a node of another scope. -/
def Calm (top : ScopeId) (happened : List Occurrence) : Prop :=
  ∀ o ∈ happened, ¬ o.fails ∧ o.closesInError = false ∧
    ∀ s id, o.about? = some (s, id) → s = top

namespace Calm

/-- Two calm stretches in a row. -/
theorem append (h : Calm top before) (h' : Calm top after) : Calm top (before ++ after) :=
  fun o ho => (List.mem_append.1 ho).elim (h o) (h' o)

/-- What is about no node and closes no scope in error is calm in every scope. -/
theorem of_about? (h : ∀ o ∈ happened, o.about? = none ∧ o.closesInError = false) :
    Calm top happened := by
  intro o ho
  obtain ⟨hnone, hclose⟩ := h o ho
  refine ⟨?_, hclose, fun s id habout => absurd (hnone.symm.trans habout) (by simp)⟩
  rintro ⟨s, e, he⟩
  exact absurd (hnone.symm.trans (Occurrence.about?_of_failureIn he)) (by simp)

/-- What comes from outside is calm. -/
theorem foreign {root : ScopeId} (h : ∀ o ∈ happened, o.IsForeign root) : Calm top happened := by
  refine of_about? fun o ho => ⟨Occurrence.about?_of_foreign h o ho, ?_⟩
  have hforeign := h o ho
  cases o with
  | changed => exact absurd hforeign id
  | _ => rfl

/-- What is published to scopes is calm. -/
theorem publication (scopes : List ScopeId) (values : Dict String Value) :
    Calm top (Occurrence.publication scopes values) := by
  refine of_about? fun o ho => ?_
  rw [Occurrence.eq_of_mem_publication ho]
  exact ⟨rfl, rfl⟩

/-- A change of the scope itself. -/
theorem change {c : Change} (h : c.failure? = none)
    (hclose : Occurrence.closesInError (.changed top c) = false) : Calm top [.changed top c] := by
  intro o ho
  rw [List.mem_singleton.1 ho]
  refine ⟨?_, hclose, fun s id habout => ?_⟩
  · rintro ⟨s, e, he⟩
    by_cases hs : top = s
    · rw [Occurrence.failureIn, if_pos hs, h] at he
      cases he
    · rw [Occurrence.failureIn, if_neg hs] at he
      cases he
  · obtain ⟨id', -, heq⟩ := Option.map_eq_some_iff.1 habout
    exact (congrArg Prod.fst heq).symm

/-- A call is about a node of the scope, and it is no failure whatever its answer is. -/
theorem call (node : String) (c : ActionCall) (answer : Except ActionError ActionResult) :
    Calm top [.called top node c answer] := by
  intro o ho
  rw [List.mem_singleton.1 ho]
  refine ⟨?_, rfl, fun s id habout => ?_⟩
  · rintro ⟨s, e, he⟩
    cases he
  · cases habout
    rfl

/-- Opening an iteration is about the loop. -/
theorem opening (frame : Frame) (id : String) (itemAs : Option String) (index : Nat) (value : Value)
    (scope : ScopeId) : Calm frame.top (openingOf frame id itemAs index value scope) := by
  have hopened : Calm frame.top [.opened scope] := of_about? fun o ho => by
    rw [List.mem_singleton.1 ho]
    exact ⟨rfl, rfl⟩
  refine (hopened.append (.change rfl rfl)).append (of_about? fun o ho => ?_)
  obtain ⟨name, -, rfl⟩ := List.mem_map.1 ho
  exact ⟨rfl, rfl⟩

/-- No failure is on record in any scope. -/
theorem failures (h : Calm top happened) (s : ScopeId) :
    happened.filterMap (Occurrence.failureIn s) = [] := by
  refine List.filterMap_eq_nil_iff.2 fun o ho => ?_
  cases hfail : o.failureIn s with
  | none => rfl
  | some e => exact absurd ⟨s, e, hfail⟩ (h o ho).1

end Calm

/-! ### Stretches of a run -/

/-- A stretch is about nodes of the scope `top` and of the scopes opened in it, and its failures
    keep from happening what they should. -/
structure Confined (policy : FailurePolicy) (top : ScopeId) (m : Machine)
    (happened : List Occurrence) (m' : Machine) : Prop where
  within : ∀ o ∈ happened, ∀ s id, o.about? = some (s, id) →
    s = top ∨ Opened m m' s
  silent : happened.Pairwise (Silences policy)

namespace Confined

variable {m m₁ m' : Machine}

/-- Two confined stretches in a row, if no failure of the first is followed by what it silences. -/
theorem append (h : Confined policy top m before m₁) (h' : Confined policy top m₁ after m')
    (hle : m.store.size ≤ m₁.store.size) (hle' : m₁.store.size ≤ m'.store.size)
    (hcross : ∀ o ∈ before, ∀ o' ∈ after, Silences policy o o') :
    Confined policy top m (before ++ after) m' := by
  refine ⟨fun o ho s id habout => ?_, List.pairwise_append.2 ⟨h.silent, h'.silent, hcross⟩⟩
  rcases List.mem_append.1 ho with ho | ho
  · exact (h.within o ho s id habout).imp_right (·.weaken (Nat.le_refl _) hle')
  · exact (h'.within o ho s id habout).imp_right (·.weaken hle (Nat.le_refl _))

/-- Nothing fails, so nothing is silenced. -/
theorem of_calm (h : Calm top happened) (m m' : Machine) : Confined policy top m happened m' where
  within o ho s id habout := .inl ((h o ho).2.2 s id habout)
  silent := List.pairwise_of_forall_mem_list fun o ho _ _ => silences_of_not_fails (h o ho).1 _

/-- Nothing fails in a scope that is not among those a stretch is about. -/
theorem failures (h : Confined policy top m happened m') {s : ScopeId} (hs : s ≠ top)
    (hout : ¬ Opened m m' s) :
    happened.filterMap (Occurrence.failureIn s) = [] := by
  refine List.filterMap_eq_nil_iff.2 fun o ho => ?_
  cases hfail : o.failureIn s with
  | none => rfl
  | some e =>
    rcases h.within o ho s e.1 (Occurrence.about?_of_failureIn hfail) with heq | hopened
    · exact absurd heq hs
    · exact absurd hopened hout

end Confined

/-- How the failures of a stretch agree with its outcome. -/
structure Stops (policy : FailurePolicy) (top : ScopeId) (m : Machine)
    (happened : List Occurrence) (outcome : Outcome) (m' : Machine) : Prop where
  confined : Confined policy top m happened m'
  /-- When all goes well, nothing fails in the scope itself. -/
  clean : outcome = .ok () → happened.filterMap (Occurrence.failureIn top) = []
  /-- If failures of iterations are not passed over, then nothing fails at all. -/
  flawless : policy = .halt → outcome = .ok () →
    ∀ o ∈ happened, ¬ o.fails ∧ o.closesInError = false
  /-- A failure is on record once, in the scope itself, with the node that it names. -/
  failure : ∀ f, outcome = .error f → f ≠ .cancelled → ∃ id, f.node? = some id ∧
    happened.filterMap (Occurrence.failureIn top) = [(id, f.recordText)]

namespace Stops

variable {m m₁ m' : Machine} {outcome : Outcome}

/-- A calm stretch goes well. -/
theorem of_calm (h : Calm top happened) (m m' : Machine) :
    Stops policy top m happened (.ok ()) m' where
  confined := .of_calm h m m'
  clean _ := h.failures top
  flawless _ _ o ho := ⟨(h o ho).1, (h o ho).2.1⟩
  failure _ hf := by cases hf

/-- Of a stretch that is cancelled nothing is asked but that it is `Confined`. -/
theorem of_cancelled (h : Confined policy top m happened m') :
    Stops policy top m happened (.error .cancelled) m' where
  confined := h
  clean hok := by cases hok
  flawless _ hok := by cases hok
  failure _ hf hne := absurd (Except.error.inj hf).symm hne

/-- A stretch that goes well and what follows it. -/
theorem trans (h : Stops policy top m before (.ok ()) m₁)
    (h' : Stops policy top m₁ after outcome m') (htop : top < m.store.size)
    (hle : m.store.size ≤ m₁.store.size) (hle' : m₁.store.size ≤ m'.store.size) :
    Stops policy top m (before ++ after) outcome m' := by
  -- What follows is about the scope itself, in which nothing has failed so far, or about scopes
  -- that were not there before.
  have hbefore : ∀ s, (∃ id, ∃ o ∈ after, o.about? = some (s, id)) →
      before.filterMap (Occurrence.failureIn s) = [] := by
    rintro s ⟨id, o, ho, habout⟩
    rcases h'.confined.within o ho s id habout with rfl | hs
    · exact h.clean rfl
    · have hne : s ≠ top := by
        rintro rfl
        exact absurd (Nat.le_trans hle hs.1) (Nat.not_le_of_lt htop)
      exact h.confined.failures hne fun hopened => Nat.not_lt_of_le hs.1 hopened.2
  constructor
  case confined =>
    refine h.confined.append h'.confined hle hle' fun o ho o' ho' =>
      ⟨fun s e he id habout => ?_, ?_⟩
    · have := hbefore s ⟨id, o', ho', habout⟩
      exact absurd he (by rw [List.filterMap_eq_nil_iff.1 this o ho]; simp)
    · exact fun hhalt hfails => absurd hfails (h.flawless hhalt rfl o ho).1
  case clean => exact fun hok => by rw [List.filterMap_append, h.clean rfl, h'.clean hok]; rfl
  case flawless =>
    exact fun hhalt hok o ho => (List.mem_append.1 ho).elim (h.flawless hhalt rfl o)
      (h'.flawless hhalt hok o)
  case failure =>
    intro f hf hne
    obtain ⟨id, hid, hfail⟩ := h'.failure f hf hne
    exact ⟨id, hid, by rw [List.filterMap_append, h.clean rfl, hfail]; rfl⟩

/-- A stretch that goes well until a node of the scope fails. -/
theorem of_failure (h : Calm top happened) {c : Change} {id : String} {f : Failure}
    (hc : c.failure? = some (id, f.recordText)) (hf : f ≠ .cancelled → f.node? = some id)
    (m m' : Machine) : Stops policy top m (happened ++ [.changed top c]) (.error f) m' := by
  have hfail : Occurrence.failureIn top (.changed top c) = some (id, f.recordText) := by
    rw [Occurrence.failureIn, if_pos rfl, hc]
  constructor
  case confined =>
    refine ⟨fun o ho s id' habout => ?_, List.pairwise_append.2
      ⟨(Confined.of_calm h m m').silent, List.pairwise_singleton _ _, fun o ho _ _ =>
        silences_of_not_fails (h o ho).1 _⟩⟩
    rcases List.mem_append.1 ho with ho | ho
    · exact .inl ((h o ho).2.2 s id' habout)
    · rw [List.mem_singleton.1 ho, Occurrence.about?_of_failureIn hfail] at habout
      exact .inl (congrArg Prod.fst (Option.some.inj habout)).symm
  case clean => exact fun hok => by cases hok
  case flawless => exact fun _ hok => by cases hok
  case failure =>
    intro f' hf' hne
    cases hf'
    refine ⟨id, hf hne, ?_⟩
    rw [List.filterMap_append, h.failures, List.filterMap_cons_some hfail]
    rfl

end Stops

/-! ### Executions -/

variable {x : Execution} {frame : Frame} {m m₁ m' : Machine}

/-- A wait that is given up fails the node that waits, unless the run is cancelled. -/
theorem Failure.node?_ofWait (id : String) (e : WaitError) (h : Failure.ofWait id e ≠ .cancelled) :
    (Failure.ofWait id e).node? = some id := by
  cases e with
  | timedOut token limit => rfl
  | cancelled token => exact absurd rfl h

/-- A change that starts a wait, and the wait, are calm if the change is no failure. -/
theorem Awaited.calm {c : Change} {id : String} {limit : Nat} {tokens : List String}
    {answer : Except WaitError (List Value)} (hm : m.Ready frame)
    (h : Awaited frame id limit tokens (m.change frame.top c) happened answer m')
    (hc : c.failure? = none)
    (hclose : Occurrence.closesInError (.changed frame.top c) = false) :
    Calm frame.top ([.changed frame.top c] ++ happened) := by
  exact (Calm.change hc hclose).append (.foreign (h.foreign_after hm))

/-- A wait for parameters and the call after it. -/
theorem Awaited.calm_called {c : Change} {id : String} {limit : Nat} {tokens : List String}
    {values : List Value} {inputs : Dict String String} {call : ActionCall}
    {answer : Except ActionError ActionResult} {heard : List Occurrence} (hm : m.Ready frame)
    (h : Awaited frame id limit tokens (m.change frame.top c) happened (.ok values) m₁)
    (hc : c.failure? = none)
    (hclose : Occurrence.closesInError (.changed frame.top c) = false)
    (hcall : Called x frame id call (m₁.change frame.top (.recordParams id inputs true)) answer
      heard m') :
    Calm frame.top ([.changed frame.top c] ++ happened ++
      [.changed frame.top (.recordParams id inputs true)] ++
        ([.called frame.top id call answer] ++ heard)) := by
  have hinputs : Calm frame.top [.changed frame.top (.recordParams id inputs true)] :=
    .change rfl rfl
  exact ((h.calm hm hc hclose).append hinputs).append
    ((Calm.call id call answer).append (.foreign (h.heard_foreign hm hcall)))

/-- An action fails at most once, and then it has ended. -/
theorem Acts.stops {id urn : String} {params exports : Dict String String} {outcome : Outcome}
    (h : Acts x frame id urn params exports m happened outcome m') (hm : m.Ready frame) :
    Stops policy frame.top m happened outcome m' := by
  cases h with
  | starved hw => exact .of_failure (hw.calm hm rfl rfl) rfl (Failure.node?_ofWait id _) _ _
  | failed hw hcall =>
    exact .of_failure (hw.calm_called hm rfl rfl hcall) rfl (fun _ => rfl) _ _
  | done hw hcall =>
    have hcalled := hw.calm_called hm rfl rfl hcall
    exact .of_calm ((hcalled.append (.publication frame.stack.scopes _)).append (.change rfl rfl))
      _ _

/-- A choice that cannot be decided fails once. -/
theorem Decides.stops {id condition : String} {f : Failure}
    (h : Decides x frame id condition m happened (.error f) m') (hm : m.Ready frame) :
    Stops policy frame.top m happened (.error f) m' := by
  cases h with
  | malformed =>
    exact .of_failure (.change (c := .startChoice id) rfl rfl) rfl (fun _ => rfl) _ _
  | starved _ hw => exact .of_failure (hw.calm hm rfl rfl) rfl (Failure.node?_ofWait id _) _ _
  | undecidable _ hw => exact .of_failure (hw.calm hm rfl rfl) rfl (fun _ => rfl) _ _

/-- A choice that is decided has not failed. -/
theorem Decides.calm {id condition : String} {b : Bool}
    (h : Decides x frame id condition m happened (.ok b) m') (hm : m.Ready frame) :
    Calm frame.top happened := by
  cases h with
  | decided _ hw => exact (hw.calm hm rfl rfl).append (.change rfl rfl)

/-- An iteration as the loop around it sees it: nothing fails in the scope of the loop. -/
theorem Stops.round {id : String} {itemAs : Option String} {index : Nat} {v : Value}
    {outcome : Outcome} (hm : m.Ready frame)
    (h : Stops policy m.store.size (m.openIteration frame id itemAs index v) happened outcome m')
    (hle : (m.openIteration frame id itemAs index v).store.size ≤ m'.store.size) :
    Confined policy frame.top m (openingOf frame id itemAs index v m.store.size ++ happened) m' ∧
      (openingOf frame id itemAs index v m.store.size ++ happened).filterMap
        (Occurrence.failureIn frame.top) = [] := by
  have hopening : Calm frame.top (openingOf frame id itemAs index v m.store.size) :=
    .opening frame id itemAs index v m.store.size
  have hsize := size_openIteration m frame id itemAs index v
  have hlt : m.store.size < m'.store.size := by omega
  -- The scope of the iteration is one that was opened in the stretch.
  have hinner : Confined policy frame.top m happened m' := by
    refine ⟨fun o ho s id habout => .inr ?_, h.confined.silent⟩
    rcases h.confined.within o ho s id habout with rfl | hs
    · exact ⟨Nat.le_refl _, hlt⟩
    · exact hs.weaken (by omega) (Nat.le_refl _)
  refine ⟨(Confined.of_calm hopening m m).append hinner (Nat.le_refl _) (Nat.le_of_lt hlt)
    fun o ho o' _ => silences_of_not_fails (hopening o ho).1 o', ?_⟩
  have hout : ¬ Opened (m.openIteration frame id itemAs index v) m' frame.top :=
    fun hopened => hm.not_opened m' (hopened.weaken (by omega) (Nat.le_refl _))
  rw [List.filterMap_append, hopening.failures, h.confined.failures (Nat.ne_of_lt hm.top) hout]
  rfl

/-- The failures of a stretch and of one more change. -/
theorem filterMap_failureIn_concat (happened : List Occurrence) (top s : ScopeId) (c : Change) :
    (happened ++ [Occurrence.changed s c]).filterMap (Occurrence.failureIn top) =
      happened.filterMap (Occurrence.failureIn top) ++
        (if s = top then c.failure? else none).toList := by
  rw [List.filterMap_append, List.filterMap_eq_flatMap_toList _ [_], List.flatMap_singleton]
  rfl

/-- A change of another scope adds no failure. -/
theorem failures_concat {s : ScopeId} (c : Change)
    (hclean : happened.filterMap (Occurrence.failureIn top) = []) (hs : s ≠ top) :
    (happened ++ [Occurrence.changed s c]).filterMap (Occurrence.failureIn top) = [] := by
  rw [filterMap_failureIn_concat, hclean, if_neg hs]
  rfl

/-- A change after a stretch in which nothing fails in the scope itself.  It is about the scope
    itself or about no node. -/
theorem Confined.close {s : ScopeId} {c : Change} (h : Confined policy top m happened m')
    (hclean : happened.filterMap (Occurrence.failureIn top) = [])
    (hs : s = top ∨ c.node? = none) :
    Confined policy top m (happened ++ [.changed s c]) (m'.change s c) := by
  have habout : ∀ t id, Occurrence.about? (.changed s c) = some (t, id) → t = top := by
    intro t id ht
    obtain ⟨id', hid, heq⟩ := Option.map_eq_some_iff.1 ht
    rcases hs with rfl | hnone
    · exact (congrArg Prod.fst heq).symm
    · rw [hnone] at hid
      cases hid
  refine ⟨fun o ho t id ht => ?_, List.pairwise_append.2
    ⟨h.silent, List.pairwise_singleton _ _, fun o ho o' ho' => ⟨fun t e he id ht => ?_, ?_⟩⟩⟩
  · rw [Opened, Machine.size_change]
    rcases List.mem_append.1 ho with ho | ho
    · exact h.within o ho t id ht
    · rw [List.mem_singleton.1 ho] at ht
      exact .inl (habout t id ht)
  · rw [List.mem_singleton.1 ho'] at ht
    rw [habout t id ht, List.filterMap_eq_nil_iff.1 hclean o ho] at he
    cases he
  · rw [List.mem_singleton.1 ho']
    exact fun _ _ => rfl

/-- An iteration that leaves the loop going on, whose scope `s` is closed in the end. -/
theorem Stops.closed {s : ScopeId} {c : Change} (h : Confined policy top m happened m')
    (hclean : happened.filterMap (Occurrence.failureIn top) = []) (hs : s ≠ top)
    (hc : c.node? = none)
    (hflawless : policy = .halt → ∀ o ∈ happened ++ [.changed s c],
      ¬ o.fails ∧ o.closesInError = false) :
    Stops policy top m (happened ++ [.changed s c]) (.ok ()) (m'.change s c) where
  confined := h.close hclean (.inr hc)
  clean _ := failures_concat c hclean hs
  flawless hhalt _ := hflawless hhalt
  failure _ hf := by cases hf

/-- An iteration that fails its loop: its scope `s` is closed first, then the loop fails in its own
    scope. -/
theorem Stops.halted {s : ScopeId} {c : Change} (h : Confined policy top m happened m')
    (hclean : happened.filterMap (Occurrence.failureIn top) = []) (hs : s ≠ top)
    (hc : c.node? = none) (id : String) (index : Nat) (f : Failure) :
    Stops policy top m (happened ++ [.changed s c] ++
        [.changed top (.failLoop id (Failure.iterationFailed id index f).recordText)])
      (.error (.iterationFailed id index f))
      ((m'.change s c).change top
        (.failLoop id (Failure.iterationFailed id index f).recordText)) := by
  have hclean' := failures_concat c hclean hs
  constructor
  case confined => exact (h.close hclean (.inr hc)).close hclean' (.inl rfl)
  case clean => exact nofun
  case flawless => exact fun _ => nofun
  case failure =>
    intro f' hf' _
    cases hf'
    exact ⟨id, rfl, by rw [filterMap_failureIn_concat, hclean', if_pos rfl]; rfl⟩

/-- **Failures stop scopes.** -/
theorem Exec.stops {task : Task} {outcome : Outcome}
    (h : Exec x frame task m happened outcome m') (hm : m.Ready frame) :
    Stops x.options.onFailure frame.top m happened outcome m' := by
  induction h with
  | nil | noRounds => exact .of_calm (fun o ho => absurd ho List.not_mem_nil) _ _
  | stopped =>
    exact .of_cancelled (.of_calm (fun o ho => absurd ho List.not_mem_nil) _ _)
  | failed _ _ ih | lastRound _ ih => exact ih hm
  | cons _ h h' ih ih' | nextRound h h' ih ih' =>
    have hext := h.extends hm
    have hready := hext.ready hm
    exact (ih hm).trans (ih' hready) hm.top hext.size_le (h'.extends hready).size_le
  | action h => exact h.stops hm
  | undecided h => exact h.stops hm
  | decided h h' ih =>
    have hext := h.extends hm
    have hready := hext.ready hm
    exact (Stops.of_calm (h.calm hm) _ _).trans (ih hready) hm.top hext.size_le
      (h'.extends hready).size_le
  | starved hw => exact .of_failure (hw.calm hm rfl rfl) rfl (Failure.node?_ofWait _ _) _ _
  | broken hw h ih =>
    have hext := hw.extends_after x.backend hm
    have hready := hext.ready hm
    exact (Stops.of_calm (hw.calm hm rfl rfl) _ _).trans (ih hready) hm.top hext.size_le
      (h.extends hready).size_le
  | finished hw h ih =>
    have hext := hw.extends_after x.backend hm
    have hready := hext.ready hm
    have hrounds := (Stops.of_calm (hw.calm hm rfl rfl) _ _).trans (ih hready) hm.top hext.size_le
      (h.extends hready).size_le
    have hend := (hext.trans (h.extends hready)).size_le
    exact hrounds.trans (.of_calm (.change rfl rfl) _ _) hm.top
      (hext.trans (h.extends hready)).size_le (Nat.le_of_eq (Machine.size_change _ _ _).symm)
  | refused =>
    exact .of_failure (fun o ho => absurd ho List.not_mem_nil) rfl (fun hne => absurd rfl hne) _ _
  | @completed frame id itemAs _ index v m _ _ _ h ih =>
    obtain ⟨-, hready⟩ := extends_openIteration x.backend hm id itemAs index v
    obtain ⟨hconfined, hclean⟩ := (ih hready).round hm (h.extends hready).size_le
    refine .closed hconfined hclean (Nat.ne_of_gt hm.top) rfl fun hhalt o ho => ?_
    simp only [List.mem_append, List.mem_singleton] at ho
    rcases ho with (ho | ho) | rfl
    · have hcalm := Calm.opening frame id itemAs index v m.store.size o ho
      exact ⟨hcalm.1, hcalm.2.1⟩
    · exact (ih hready).flawless hhalt rfl o ho
    · refine ⟨?_, rfl⟩
      rintro ⟨s, e, he⟩
      cases Occurrence.about?_of_failureIn he
  | passed _ h _ hpolicy ih =>
    obtain ⟨-, hready⟩ := extends_openIteration x.backend hm _ _ _ _
    obtain ⟨hconfined, hclean⟩ := (ih hready).round hm (h.extends hready).size_le
    -- This policy passes over failures, so nothing is claimed to be flawless.
    refine .closed hconfined hclean (Nat.ne_of_gt hm.top) rfl fun hhalt => ?_
    rw [hpolicy] at hhalt
    cases hhalt
  | halted _ h _ _ ih =>
    obtain ⟨-, hready⟩ := extends_openIteration x.backend hm _ _ _ _
    obtain ⟨hconfined, hclean⟩ := (ih hready).round hm (h.extends hready).size_le
    exact .halted hconfined hclean (Nat.ne_of_gt hm.top) rfl _ _ _
  | interrupted _ h ih =>
    obtain ⟨-, hready⟩ := extends_openIteration x.backend hm _ _ _ _
    obtain ⟨hconfined, hclean⟩ := (ih hready).round hm (h.extends hready).size_le
    exact .of_cancelled (hconfined.close hclean (.inl rfl))

/-! ### Whole runs -/

/-- In the course of a whole run failures keep from happening what they should. -/
theorem Started.silent {outcome : Outcome} (h : Started x m happened outcome m') :
    (happened ++ [Occurrence.changed m.root outcome.closing]).Pairwise
      (Silences x.options.onFailure) := by
  obtain ⟨m₁, hexec, -⟩ := h.exec
  refine List.pairwise_append.2 ⟨(hexec.stops h.ready).confined.silent, List.pairwise_singleton _ _,
    fun o _ o' ho' => ?_⟩
  rw [List.mem_singleton.1 ho']
  refine ⟨fun s e _ id habout => ?_, fun _ _ => rfl⟩
  rw [Occurrence.about?, outcome.closing_of.2] at habout
  cases habout

/-- How a run stops at failures.  The moments of the run are the prefixes of its course, and the
    scopes of a moment are the ones that the prefix tells of. -/
structure FailStop (policy : FailurePolicy) (seed : Dict String Value) (m : Machine) : Prop where
  told : ∀ s, m.store.scope s = .told seed m.course s
  /-- At no moment do two records of a scope carry an error. -/
  single : ∀ earlier later, m.course = earlier ++ later →
    ∀ s, (Scope.told seed earlier s).errors.length ≤ 1
  /-- Once a record of a scope carries an error, no node is started in the scope and no action is
      called from it. -/
  rests : ∀ earlier later, m.course = earlier ++ later →
    ∀ s, (Scope.told seed earlier s).errors ≠ [] →
      ∀ o ∈ later, ¬ o.startsIn s ∧ ¬ o.callsFrom s
  /-- If failed iterations halt loops, then no action is called at all once a record of some scope
      carries an error. -/
  halts : policy = .halt → ∀ earlier later, m.course = earlier ++ later →
    ∀ s, (Scope.told seed earlier s).errors ≠ [] → ∀ o ∈ later, o.call? = none

/-- **Failures stop scopes.** For every graph, backend, seed, policy and schedule of events. -/
theorem failStop_start (x : Execution) (seed : Dict String Value) (events : List Event) :
    FailStop x.options.onFailure seed (x.start (.scheduled seed events)).2 := by
  obtain ⟨happened, hstarted, hcourse, hsound⟩ := start_scheduled x seed events
  have hsilent := hstarted.silent
  -- At any moment, errors on record come from failures, and those silence what comes later.
  have hmoment : ∀ earlier later, (x.start (.scheduled seed events)).2.course = earlier ++ later →
      ∀ s, (Scope.told seed earlier s).errors.length ≤ 1 ∧
        ((Scope.told seed earlier s).errors ≠ [] →
          ∃ o ∈ earlier, (∃ e, o.failureIn s = some e) ∧
            ∀ o' ∈ later, Silences x.options.onFailure o o') := by
    intro earlier later hsplit s
    rw [hcourse] at hsplit
    have hpairs := List.pairwise_append.1 (hsplit ▸ hsilent)
    obtain ⟨herrors, hlength⟩ := errors_told (hpairs.1.imp fun h => h.1) seed s
    rw [herrors]
    refine ⟨hlength, fun hne => ?_⟩
    obtain ⟨e, he⟩ := List.exists_mem_of_ne_nil _ hne
    obtain ⟨o, ho, hfail⟩ := List.mem_filterMap.1 he
    exact ⟨o, ho, ⟨e, hfail⟩, hpairs.2.2 o ho⟩
  refine ⟨hsound.told, fun earlier later hsplit s => (hmoment earlier later hsplit s).1,
    fun earlier later hsplit s hne o' ho' => ?_, fun hhalt earlier later hsplit s hne o' ho' => ?_⟩
  · obtain ⟨o, -, ⟨e, hfail⟩, hlater⟩ := (hmoment earlier later hsplit s).2 hne
    refine ⟨fun hstart => ?_, fun hcall => ?_⟩
    · obtain ⟨id, habout⟩ := Occurrence.about?_of_startsIn hstart
      exact (hlater o' ho').1 s e hfail id habout
    · obtain ⟨id, habout⟩ := Occurrence.about?_of_callsFrom hcall
      exact (hlater o' ho').1 s e hfail id habout
  · obtain ⟨o, -, ⟨e, hfail⟩, hlater⟩ := (hmoment earlier later hsplit s).2 hne
    exact (hlater o' ho').2 hhalt ⟨s, e, hfail⟩

end Runbook
