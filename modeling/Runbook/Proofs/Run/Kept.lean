import Runbook.Proofs.Run.Exec

namespace Runbook

/-!
# Running a graph — what every step keeps

Some properties of machines outlast a run because nothing that a run does to a machine takes them
away.  Whatever is shown of the single things that a run does holds of a whole execution, and the
induction on executions is made here, once for all such properties.

* `Machine.Kept` — nothing that a run does to a machine takes a property away;
* `Machine.Kept.performDuring`, `Machine.Kept.awaitDuring` — events keep it, in a call or a wait;
* `Machine.Kept.exec` — executions keep it, by induction.
-/

/-- Nothing that a run does to a machine takes a property away. -/
structure Machine.Kept (P : Machine → Prop) : Prop where
  change {m : Machine} (h : P m) (s : ScopeId) (c : Change) : P (m.change s c)
  publish {m : Machine} (h : P m) (stack : Stack) (values : Dict String Value) :
    P (m.publish stack values)
  cancel {m : Machine} (h : P m) : P m.cancel
  pushChild {m : Machine} (h : P m) (stack : Stack) : P (m.pushChild stack).2
  recordCall {m : Machine} (h : P m) (s : ScopeId) (id : String) (c : ActionCall)
    (answer : Except ActionError ActionResult) : P (m.countExecution.recordCall s id c answer)
  recordWait {m : Machine} (h : P m) (s : ScopeId) (site : Site) (token : String) :
    P (m.recordWait s site token)
  /-- Events happen, and those to come become fewer. -/
  reschedule {m : Machine} (h : P m) {events : List Event} (hsub : events ⊆ m.schedule) :
    P { m with schedule := events }
  elapse {m : Machine} (h : P m) (limit : Nat) {events : List Event}
    (hsub : events ⊆ m.schedule) : P (m.elapse limit events)

/-- `Machine.perform` takes no event off the schedule: that is up to the waits and calls. -/
theorem Machine.schedule_perform (m : Machine) (e : Effect) :
    (m.perform e).schedule = m.schedule := by
  cases e with
  | publish values =>
    show (m.publish (.of m.root) values).schedule = m.schedule
    unfold Machine.publish
    by_cases hempty : values.isEmpty
    · rw [if_pos hempty]
    · rw [if_neg hempty]
  | cancel => rfl

namespace Machine.Kept

variable {P : Machine → Prop} {x : Execution} {frame : Frame} {m m' : Machine}
  {happened : List Occurrence}

/-! ### Events -/

/-- Events from outside publish or cancel, so they keep what changes and publications keep. -/
theorem perform (hP : Kept P) (h : P m) (e : Effect) : P (m.perform e) := by
  cases e with
  | publish values => exact hP.publish h _ values
  | cancel => exact hP.cancel h

/-- The events of a call keep what `Machine.perform` keeps. -/
theorem performDuring (hP : Kept P) (site : Site) (events : List Event) :
    ∀ {m : Machine}, P m → events ⊆ m.schedule → P (Machine.performDuring site m events) := by
  induction events with
  | nil => exact fun h hsub => hP.reschedule h hsub
  | cons e rest ih =>
    intro m h hsub
    unfold Machine.performDuring
    by_cases hfits : e.trigger.fitsCall site
    · rw [if_pos hfits]
      refine ih (hP.perform h e.effect) ?_
      rw [Machine.schedule_perform]
      exact (List.cons_subset.1 hsub).2
    · rw [if_neg hfits]
      exact hP.reschedule h hsub

/-- A wait takes events off the schedule, by induction on those that are left. -/
theorem awaitDuring (hP : Kept P) (stack : Stack) (site : Site) (limit : Nat) (token : String)
    (events : List Event) : ∀ {m : Machine}, P m → events ⊆ m.schedule →
      P (Machine.awaitDuring stack site limit token m events).2 := by
  induction events with
  | nil =>
    intro m h hsub
    unfold Machine.awaitDuring
    cases m.settled? stack token with
    | some answer => exact hP.reschedule h hsub
    | none => exact hP.elapse h limit hsub
  | cons e rest ih =>
    intro m h hsub
    unfold Machine.awaitDuring
    cases m.settled? stack token with
    | some answer => exact hP.reschedule h hsub
    | none =>
      dsimp only
      by_cases hfits : e.trigger.fits site
      · rw [if_pos hfits]
        refine ih (hP.perform (hP.recordWait h stack.top site token) e.effect) ?_
        rw [Machine.schedule_perform]
        exact (List.cons_subset.1 hsub).2
      · rw [if_neg hfits]
        exact hP.elapse h limit hsub

/-- Several waits in a row. -/
theorem awaitAll (hP : Kept P) (stack : Stack) (site : Site) (limit : Nat)
    (tokens : List String) : ∀ {m : Machine}, P m → P (m.awaitAll stack site limit tokens).2 := by
  induction tokens with
  | nil => exact fun h => h
  | cons token rest ih =>
    intro m h
    have hfirst := hP.awaitDuring stack site limit token m.schedule h (List.Subset.refl _)
    unfold Machine.awaitAll Machine.await
    generalize Machine.awaitDuring stack site limit token m m.schedule = waited at hfirst
    obtain ⟨answer, m₁⟩ := waited
    cases answer with
    | error e => exact hfirst
    | ok v => exact ih hfirst

/-! ### Executions -/

/-- `awaitAll` as `Awaited` tells it. -/
theorem awaited (hP : Kept P) {id : String} {limit : Nat} {tokens : List String}
    {answer : Except WaitError (List Value)} (h : P m)
    (hw : Awaited frame id limit tokens m happened answer m') : P m' := by
  have hwait := hP.awaitAll frame.stack ⟨id, frame.path⟩ limit tokens h
  rwa [hw.eq] at hwait

/-- A call is put on record, and then what happens during it. -/
theorem called (hP : Kept P) {id : String} {c : ActionCall}
    {answer : Except ActionError ActionResult} {heard : List Occurrence} (h : P m)
    (hcall : Called x frame id c m answer heard m') : P m' := by
  have hrecord := hP.recordCall h frame.top id c (x.backend m.calls c)
  exact hcall.eq ▸ hP.performDuring ⟨id, frame.path⟩ m.schedule hrecord (List.Subset.refl _)

/-- The waits, the call and the changes of an action. -/
theorem acts (hP : Kept P) {id urn : String} {params exports : Dict String String}
    {outcome : Outcome} (h : P m)
    (hacts : Acts x frame id urn params exports m happened outcome m') : P m' := by
  cases hacts with
  | starved hw => exact hP.change (hP.awaited (hP.change h _ _) hw) _ _
  | failed hw hcall =>
    exact hP.change (hP.called (hP.change (hP.awaited (hP.change h _ _) hw) _ _) hcall) _ _
  | done hw hcall =>
    have hcalled := hP.called (hP.change (hP.awaited (hP.change h _ _) hw) _ _) hcall
    exact hP.change (hP.publish hcalled _ _) _ _

/-- The waits of a choice and the change that puts its verdict on record. -/
theorem decides (hP : Kept P) {id condition : String} {answer : Except Failure Bool} (h : P m)
    (hdecides : Decides x frame id condition m happened answer m') : P m' := by
  cases hdecides with
  | malformed => exact hP.change (hP.change h _ _) _ _
  | starved _ hw | undecidable _ hw | decided _ hw =>
    exact hP.change (hP.awaited (hP.change h _ _) hw) _ _

/-- Opening an iteration makes its scope and puts it on the record of the loop. -/
theorem openIteration (hP : Kept P) (h : P m) (frame : Frame) (id : String)
    (itemAs : Option String) (index : Nat) (v : Value) :
    P (m.openIteration frame id itemAs index v) := by
  cases itemAs with
  | none => exact hP.change (hP.pushChild h frame.stack) _ _
  | some name => exact hP.change (hP.change (hP.pushChild h frame.stack) _ _) _ _

/-- **What every step keeps.** An execution keeps what each of its steps keeps. -/
theorem exec (hP : Kept P) {task : Task} {outcome : Outcome}
    (hexec : Exec x frame task m happened outcome m') (h : P m) : P m' := by
  induction hexec with
  | nil | stopped | noRounds => exact h
  | failed _ _ ih | lastRound _ ih => exact ih h
  | cons _ _ _ ih ih' | nextRound _ _ ih ih' => exact ih' (ih h)
  | action hacts => exact hP.acts h hacts
  | undecided hdecides => exact hP.decides h hdecides
  | decided hdecides _ ih => exact ih (hP.decides h hdecides)
  | starved hw => exact hP.change (hP.awaited (hP.change h _ _) hw) _ _
  | broken hw _ ih => exact ih (hP.awaited (hP.change h _ _) hw)
  | finished hw _ ih => exact hP.change (ih (hP.awaited (hP.change h _ _) hw)) _ _
  | refused => exact hP.change h _ _
  | completed _ _ ih | passed _ _ _ _ ih | interrupted _ _ ih =>
    exact hP.change (ih (hP.openIteration h _ _ _ _ _)) _ _
  | halted _ _ _ _ ih => exact hP.change (hP.change (ih (hP.openIteration h _ _ _ _ _)) _ _) _ _

end Machine.Kept

end Runbook
