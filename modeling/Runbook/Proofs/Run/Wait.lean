import Runbook.Proofs.Run.Course

namespace Runbook

/-!
# Running a graph — waiting

A node waits for one token after the other, and an action is called when all have come.  What
happens while a node waits or calls is the doing of others: values are exported to the scope of the
whole runbook, and the run is cancelled.

* `Machine.awaitAll` — waits for tokens one after the other, until one of them does not come;
* `Occurrence.IsForeign` — what others may do while a node waits or calls;
* `Effect.happens`, `Machine.extends_happens` — what an event puts on the journal;
* `Machine.extends_meanwhile` — what happens in a call is the doing of events that are meant for it;
* `Awaited` — a wait with all that happens in it;
* `Awaited.extends_foreign` — it extends the machine by what others do.
-/

namespace Occurrence

/-- What others do while a node waits or calls its action, and that a node waits. -/
def IsForeign (root : ScopeId) : Occurrence → Prop
  | interrupted .. => True
  | published scopes _ => scopes = [root]
  | cancelled => True
  | _ => False

/-- What is published to the scope of the whole runbook comes from outside. -/
theorem foreign_publication {root : ScopeId} {values : Dict String Value} :
    ∀ o ∈ publication [root] values, o.IsForeign root := by
  intro o ho
  rw [eq_of_mem_publication ho]
  rfl

end Occurrence

/-- What an event puts on the journal, `root` being the scope of the whole runbook. -/
def Effect.happens (root : ScopeId) : Effect → List Occurrence
  | .publish values => Occurrence.publication [root] values
  | .cancel => [.cancelled]

/-- Whatever an event does comes from outside. -/
theorem Effect.foreign_happens (root : ScopeId) (e : Effect) :
    ∀ o ∈ e.happens root, o.IsForeign root := by
  cases e with
  | publish => exact Occurrence.foreign_publication
  | cancel =>
    intro o ho
    rw [List.mem_singleton.1 ho]
    trivial

/-- An event that happens in a call is meant for it. -/
theorem Trigger.eq_callAt {t : Trigger} {site : Site} (h : t.fitsCall site) : t = .callAt site := by
  cases t with
  | callAt other => exact congrArg _ (beq_iff_eq.1 h)
  | anyWait | waitAt => cases h

/-- How a wait for up to `limit` milliseconds may fail on a clock that shows no more than `horizon`:
    it is cancelled, or the limit elapses, which the clock has to show. -/
inductive WaitError.Within (limit horizon : Nat) : WaitError → Prop
  | cancelled (token : String) : Within limit horizon (.cancelled token)
  | timedOut (token : String) : limit ≤ horizon → Within limit horizon (.timedOut token limit)

/-- A wait fails in the same way by every clock that can show its limit. -/
theorem WaitError.Within.of_le {limit horizon horizon' : Nat} {e : WaitError}
    (h : e.Within limit horizon) (hle : limit ≤ horizon') : e.Within limit horizon' := by
  cases h with
  | cancelled token => exact .cancelled token
  | timedOut token _ => exact .timedOut token hle

namespace Machine

/-- Waits for tokens one after the other, until one of them does not come. -/
def awaitAll (m : Machine) (stack : Stack) (site : Site) (limit : Nat) :
    List String → Except WaitError (List Value) × Machine
  | [] => (.ok [], m)
  | token :: rest =>
    match m.await stack site limit token with
    | (.error e, m₁) => (.error e, m₁)
    | (.ok v, m₁) =>
      let (answer, m₂) := m₁.awaitAll stack site limit rest
      (answer.map (v :: ·), m₂)

/-- A wait for several tokens that ends well has brought a value for the first one, and then for
    the others. -/
theorem awaitAll_cons_ok {m m' : Machine} {stack : Stack} {site : Site} {limit : Nat}
    {token : String} {rest : List String} {values : List Value}
    (h : m.awaitAll stack site limit (token :: rest) = (.ok values, m')) :
    ∃ v m₁ later, m.await stack site limit token = (.ok v, m₁) ∧
      m₁.awaitAll stack site limit rest = (.ok later, m') ∧ values = v :: later := by
  rw [awaitAll] at h
  cases hfirst : m.await stack site limit token with
  | mk answer m₁ =>
    rw [hfirst] at h
    cases answer with
    | error e => cases h
    | ok v =>
      dsimp only at h
      cases hrest : m₁.awaitAll stack site limit rest with
      | mk answer m₂ =>
        rw [hrest] at h
        cases answer with
        | error e => cases h
        | ok later =>
          cases h
          exact ⟨v, m₁, later, rfl, hrest, rfl⟩

/-- A wait that ends well has brought a value for every token. -/
theorem length_awaitAll (stack : Stack) (site : Site) (limit : Nat)
    (tokens : List String) : ∀ {m m' : Machine} {values : List Value},
      m.awaitAll stack site limit tokens = (.ok values, m') → values.length = tokens.length := by
  induction tokens with
  | nil =>
    intro m m' values h
    cases h
    rfl
  | cons token rest ih =>
    intro m m' values h
    obtain ⟨v, m₁, later, -, hrest, rfl⟩ := awaitAll_cons_ok h
    exact congrArg Nat.succ (ih hrest)

/-- If nothing is to come, a token is found at once or not at all. -/
theorem awaitDuring_nil {m : Machine} {stack : Stack} (hcalm : stack.isCancelled m.store = false)
    (site : Site) (limit : Nat) (token : String) :
    awaitDuring stack site limit token m [] = match stack.lookup m.store token with
      | some v => (.ok v, { m with schedule := [] })
      | none => (.error (.timedOut token limit), m.elapse limit []) := by
  unfold awaitDuring settled?
  rw [hcalm, if_neg (by simp)]
  cases stack.lookup m.store token <;> rfl

/-- Nothing happens while a node waits if nothing is to come, but that its limit may elapse. -/
theorem await_quiet {m : Machine} {stack : Stack} (hschedule : m.schedule = [])
    (hcalm : stack.isCancelled m.store = false) (site : Site) (limit : Nat) (token : String) :
    m.await stack site limit token = match stack.lookup m.store token with
      | some v => (.ok v, m)
      | none => (.error (.timedOut token limit), m.elapse limit []) := by
  obtain ⟨store, root, schedule, journal, executions, elapsed⟩ := m
  dsimp only at hschedule
  subst hschedule
  exact awaitDuring_nil hcalm site limit token

/-- A single event to come happens if a token is not found. -/
theorem await_one {m : Machine} {stack : Stack} {e : Effect}
    (hschedule : m.schedule = [⟨.anyWait, e⟩]) (hcalm : stack.isCancelled m.store = false)
    (site : Site) (limit : Nat) (token : String) :
    m.await stack site limit token = match stack.lookup m.store token with
      | some v => (.ok v, m)
      | none => awaitDuring stack site limit token
          ((m.recordWait stack.top site token).perform e) [] := by
  obtain ⟨store, root, schedule, journal, executions, elapsed⟩ := m
  dsimp only at hschedule
  subst hschedule
  rw [await, awaitDuring.eq_def]
  unfold settled?
  rw [hcalm, if_neg (by simp)]
  dsimp only
  cases stack.lookup store token <;> rfl

variable (backend : Backend)

/-- **Events.** An event extends a machine by what `Effect.happens` lists. -/
theorem extends_happens {m : Machine} (hroot : m.root < m.store.size) (e : Effect) :
    Extends backend m (e.happens m.root) (m.perform e) := by
  cases e with
  | publish values =>
    have hholds : m.Holds (.of m.root) := fun s hs => by
      rw [List.mem_singleton.1 hs]
      exact hroot
    exact .publish hholds values
  | cancel => exact .cancel m

/-- What an event does is done by others. -/
theorem extends_perform {m : Machine} (hroot : m.root < m.store.size) (e : Effect) :
    ∃ happened, Extends backend m happened (m.perform e) ∧
      ∀ o ∈ happened, o.IsForeign m.root :=
  ⟨_, extends_happens backend hroot e, e.foreign_happens m.root⟩

/-- `extends_meanwhile` by induction on the events to come, the first of which happens or ends the
    matter. -/
theorem extends_performDuring (site : Site) (events : List Event) : ∀ m : Machine,
    m.root < m.store.size →
      ∃ effects : List Effect, (∀ e ∈ effects, ⟨.callAt site, e⟩ ∈ events) ∧
        Extends backend m (effects.flatMap (Effect.happens m.root))
          (performDuring site m events) := by
  induction events with
  | nil => exact fun m _ => ⟨[], fun e he => absurd he List.not_mem_nil, .reschedule m []⟩
  | cons e rest ih =>
    intro m hroot
    unfold performDuring
    by_cases hfits : e.trigger.fitsCall site
    · rw [if_pos hfits]
      have hdone := extends_happens backend hroot e.effect
      obtain ⟨effects, hmeant, hlater⟩ := ih _ (by
        rw [hdone.root]
        exact Nat.lt_of_lt_of_le hroot hdone.size_le)
      rw [hdone.root] at hlater
      refine ⟨e.effect :: effects, fun e' he' => ?_, hdone.trans hlater⟩
      rcases List.mem_cons.1 he' with rfl | he'
      · obtain ⟨trigger, effect⟩ := e
        cases Trigger.eq_callAt hfits
        exact List.mem_cons_self
      · exact List.mem_cons_of_mem _ (hmeant e' he')
    · rw [if_neg hfits]
      exact ⟨[], fun e he => absurd he List.not_mem_nil, .reschedule m _⟩

/-- **Calls.** What happens while an action is called is what events do that are meant for the
    call. -/
theorem extends_meanwhile {m : Machine} (hroot : m.root < m.store.size) (site : Site) :
    ∃ effects : List Effect, (∀ e ∈ effects, ⟨.callAt site, e⟩ ∈ m.schedule) ∧
      Extends backend m (effects.flatMap (Effect.happens m.root)) (m.meanwhile site) :=
  extends_performDuring backend site m.schedule m hroot

/-- If no event to come is meant for the call of the node, nothing happens meanwhile. -/
theorem meanwhile_eq_self {m : Machine} {site : Site}
    (h : ∀ e ∈ m.schedule.head?, e.trigger.fitsCall site = false) : m.meanwhile site = m := by
  obtain ⟨store, root, schedule, journal, executions, elapsed⟩ := m
  cases schedule with
  | nil => rfl
  | cons e rest => exact if_neg (Bool.eq_false_iff.1 (h e rfl))

/-- **Waiting.** All that happens while a node waits is done by others. -/
theorem extends_awaitDuring (stack : Stack) (site : Site) (limit : Nat) (token : String)
    (events : List Event) : ∀ m : Machine, m.root < m.store.size →
      ∃ happened, Extends backend m happened (awaitDuring stack site limit token m events).2 ∧
        ∀ o ∈ happened, o.IsForeign m.root := by
  induction events with
  | nil =>
    intro m hroot
    refine ⟨[], ?_, fun o ho => absurd ho List.not_mem_nil⟩
    unfold awaitDuring
    cases m.settled? stack token with
    | some answer => exact .reschedule m []
    | none => exact .elapse m limit []
  | cons e rest ih =>
    intro m hroot
    unfold awaitDuring
    cases m.settled? stack token with
    | some answer =>
      exact ⟨[], .reschedule m _, fun o ho => absurd ho List.not_mem_nil⟩
    | none =>
      dsimp only
      by_cases hfits : e.trigger.fits site
      · -- The event happens, and the node goes on waiting.
        rw [if_pos hfits]
        have hwait : Extends backend m _ (m.recordWait stack.top site token) :=
          .recordWait m stack.top site token
        obtain ⟨done, hdone, hforeign⟩ :=
          extends_perform backend (m := m.recordWait stack.top site token) hroot e.effect
        obtain ⟨later, hlater, hforeign'⟩ := ih _ (by
          rw [hdone.root]
          exact Nat.lt_of_lt_of_le hroot (hwait.trans hdone).size_le)
        refine ⟨_, (hwait.trans hdone).trans hlater, fun o ho => ?_⟩
        rw [hdone.root] at hforeign'
        simp only [List.mem_append, List.mem_singleton] at ho
        rcases ho with (rfl | ho) | ho
        · trivial
        · exact hforeign o ho
        · exact hforeign' o ho
      · rw [if_neg hfits]
        exact ⟨[], .elapse m limit _, fun o ho => absurd ho List.not_mem_nil⟩

/-- All that happens while a node waits for tokens one after the other is done by others. -/
theorem extends_awaitAll (stack : Stack) (site : Site) (limit : Nat) (tokens : List String) :
    ∀ m : Machine, m.root < m.store.size →
      ∃ happened, Extends backend m happened (m.awaitAll stack site limit tokens).2 ∧
        ∀ o ∈ happened, o.IsForeign m.root := by
  induction tokens with
  | nil => exact fun m _ => ⟨[], .refl m, fun o ho => absurd ho List.not_mem_nil⟩
  | cons token rest ih =>
    intro m hroot
    obtain ⟨first, hfirst, hforeign⟩ :=
      extends_awaitDuring backend stack site limit token m.schedule m hroot
    unfold awaitAll await
    generalize awaitDuring stack site limit token m m.schedule = waited at hfirst
    obtain ⟨answer, m₁⟩ := waited
    cases answer with
    | error e => exact ⟨first, hfirst, hforeign⟩
    | ok v =>
      obtain ⟨later, hlater, hforeign'⟩ := ih m₁ (by
        rw [hfirst.root]
        exact Nat.lt_of_lt_of_le hroot hfirst.size_le)
      refine ⟨first ++ later, hfirst.trans hlater, fun o ho => ?_⟩
      rw [hfirst.root] at hforeign'
      exact (List.mem_append.1 ho).elim (hforeign o) (hforeign' o)

end Machine

/-- A node waits for tokens, `happened` being what happens meanwhile. -/
structure Awaited (frame : Frame) (id : String) (limit : Nat) (tokens : List String) (m : Machine)
    (happened : List Occurrence) (answer : Except WaitError (List Value)) (m' : Machine) :
    Prop where
  eq : m.awaitAll frame.stack ⟨id, frame.path⟩ limit tokens = (answer, m')
  course : m'.course = m.course ++ happened

namespace Awaited

variable {frame : Frame} {id : String} {limit : Nat} {tokens : List String}
  {m m' : Machine} {happened : List Occurrence} {answer : Except WaitError (List Value)}

/-- Waiting for tokens is `Awaited`, with whatever happens meanwhile. -/
theorem intro (hroot : m.root < m.store.size)
    (h : m.awaitAll frame.stack ⟨id, frame.path⟩ limit tokens = (answer, m')) :
    ∃ happened, Awaited frame id limit tokens m happened answer m' := by
  -- No call is made meanwhile, so any backend will do.
  obtain ⟨happened, hext, -⟩ := Machine.extends_awaitAll (fun _ _ => .ok {}) frame.stack
    ⟨id, frame.path⟩ limit tokens m hroot
  rw [h] at hext
  exact ⟨happened, h, hext.course⟩

/-- A wait that ends well has brought a value for every token. -/
theorem length_eq {values : List Value}
    (h : Awaited frame id limit tokens m happened (.ok values) m') :
    values.length = tokens.length :=
  Machine.length_awaitAll _ _ _ _ h.eq

/-- **Waiting.** It extends the machine by what others do. -/
theorem extends_foreign (backend : Backend) (hroot : m.root < m.store.size)
    (h : Awaited frame id limit tokens m happened answer m') :
    Extends backend m happened m' ∧ ∀ o ∈ happened, o.IsForeign m.root := by
  obtain ⟨happened', hext, hforeign⟩ := Machine.extends_awaitAll backend frame.stack
    ⟨id, frame.path⟩ limit tokens m hroot
  rw [h.eq] at hext
  obtain rfl : happened = happened' :=
    List.append_cancel_left (h.course.symm.trans hext.course)
  exact ⟨hext, hforeign⟩

end Awaited

end Runbook
