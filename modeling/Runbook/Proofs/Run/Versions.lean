import Mathlib.Data.List.Forall2
import Runbook.Proofs.Run.Sessions
import Runbook.Proofs.Scope.Versions

namespace Runbook

/-!
# Running a graph — what versions tell of a run

What a run does to its scopes, and what others do meanwhile, is a matter of single operations, one
for each thing on its journal.  So versions count in the middle of a run as they do outside.

* `Occurrence.Tells` — the operation that an entry of the journal tells of;
* `Scene.Hosts` — a scene in which a node can run;
* `Retold` — a stretch of a run as operations of each scene that hosts it;
* `Exec.retold` — every execution is one, by induction over executions;
* `VersionsDetect`, `versions_detect` — the law of versions.
-/

/-- What an entry of the journal tells of. -/
inductive Occurrence.Tells : Occurrence → Operation → Prop
  | opened {scope : ScopeId} {s : Stack} : Tells (.opened scope) (.pushChild s)
  | changed {scope : ScopeId} {c : Change} : Tells (.changed scope c) (.change scope c)
  | published {s : Stack} {values : Dict String Value} :
      values.isEmpty = false → Tells (.published s.scopes values) (.publish s values)
  /-- A call is no matter of scopes. -/
  | called {scope : ScopeId} {node : String} {call : ActionCall}
      {answer : Except ActionError ActionResult} : Tells (.called scope node call answer) .read
  | interrupted {scope : ScopeId} {site : Site} {token : String} :
      Tells (.interrupted scope site token) .read
  | cancelled {scope : ScopeId} : Tells .cancelled (.cancel scope)

/-- A node can run in a scene: the scopes are the ones of the machine, and the stacks that the run
    makes use of were made. -/
structure Scene.Hosts (seed : Dict String Value) (w : Scene) (m : Machine) (frame : Frame) :
    Prop where
  family : w.IsFamily seed
  store : w.store = m.store
  root : .of m.root ∈ w.made
  stack : frame.stack ∈ w.made

namespace Scene.Hosts

variable {seed : Dict String Value} {w w' : Scene} {m m' : Machine} {frame : Frame}
  {ops : List Operation}

/-- The scene has as many scopes as the store. -/
theorem size_eq (h : w.Hosts seed m frame) : w.store.size = m.store.size :=
  congrArg Store.size h.store

/-- The scopes of a stack that was made are there. -/
theorem lt_size (h : w.Hosts seed m frame) {s : Stack} (hs : s ∈ w.made) {scope : ScopeId}
    (hscope : scope ∈ s.scopes) : scope < w.store.size :=
  h.family.present s hs scope hscope

/-- The innermost scope of the frame is in the scene. -/
theorem top_lt (h : w.Hosts seed m frame) : frame.top < w.store.size :=
  h.lt_size h.stack List.mem_cons_self

/-- What hosts a machine goes on to host it. -/
theorem goOn (h : w.Hosts seed m frame) (hops : w.Becomes ops w') (hstore : w'.store = m'.store)
    (hroot : m'.root = m.root) : w'.Hosts seed m' frame where
  family := hops.family h.family
  store := hstore
  root := hroot ▸ hops.made_subset h.root
  stack := hops.made_subset h.stack

end Scene.Hosts

/-! ### Stretches of a run -/

/-- What happens from `m` to `m'` is told of operations, in every scene that hosts it. -/
structure Retold (seed : Dict String Value) (frame : Frame) (m : Machine)
    (happened : List Occurrence) (m' : Machine) : Prop where
  root : m'.root = m.root
  course : m'.course = m.course ++ happened
  operations : ∀ w : Scene, w.Hosts seed m frame → ∃ ops w', w.Becomes ops w' ∧
    w'.store = m'.store ∧ List.Forall₂ Occurrence.Tells happened ops

namespace Retold

variable {seed : Dict String Value} {frame : Frame} {m m₁ m' : Machine}
  {happened before after : List Occurrence}

/-- The events to come are no part of a scene. -/
theorem reschedule (m : Machine) (events : List Event) :
    Retold seed frame m [] { m with schedule := events } :=
  ⟨rfl, (List.append_nil _).symm, fun w hw => ⟨[], w, .refl, hw.store, .nil⟩⟩

/-- Neither are the limits that have ended a wait. -/
theorem elapse (m : Machine) (limit : Nat) (events : List Event) :
    Retold seed frame m [] (m.elapse limit events) :=
  ⟨rfl, (List.append_nil _).symm, fun w hw => ⟨[], w, .refl, hw.store, .nil⟩⟩

/-- Nothing happens, and no operation is needed. -/
theorem refl (m : Machine) : Retold seed frame m [] m := .reschedule m m.schedule

/-- Two stretches in a row are told by the operations of both. -/
theorem trans (h : Retold seed frame m before m₁) (h' : Retold seed frame m₁ after m') :
    Retold seed frame m (before ++ after) m' := by
  refine ⟨h'.root.trans h.root, ?_, fun w hw => ?_⟩
  · rw [h'.course, h.course, List.append_assoc]
  obtain ⟨ops, w₁, hops, hstore, htells⟩ := h.operations w hw
  obtain ⟨later, w', hlater, hstore', htells'⟩ :=
    h'.operations w₁ (hw.goOn hops hstore h.root)
  exact ⟨ops ++ later, w', hops.trans hlater, hstore', List.rel_append htells htells'⟩

/-- A single operation. -/
theorem one {o : Occurrence} (op : Operation) (htells : o.Tells op) (hroot : m'.root = m.root)
    (hjournal : m'.journal = o :: m.journal)
    (hop : ∀ w : Scene, w.Hosts seed m frame → w.Allows op ∧ (w.after op).store = m'.store) :
    Retold seed frame m [o] m' where
  root := hroot
  course := Machine.course_of_journal hjournal
  operations w hw := ⟨[op], _, .one (hop w hw).1, (hop w hw).2, .cons htells .nil⟩

/-- A change of the innermost scope is one operation. -/
theorem change (m : Machine) (c : Change) :
    Retold seed frame m [.changed frame.top c] (m.change frame.top c) :=
  .one (.change frame.top c) .changed rfl rfl fun _ hw =>
    ⟨hw.top_lt, congrArg (Store.apply · frame.top c) hw.store⟩

/-- A stretch with one more change of the innermost scope. -/
theorem andChange (h : Retold seed frame m happened m₁) (c : Change) :
    Retold seed frame m (happened ++ [.changed frame.top c]) (m₁.change frame.top c) :=
  h.trans (.change m₁ c)

/-- Exporting values on a stack that was made. -/
theorem publish {s : Stack} (hs : ∀ w : Scene, w.Hosts seed m frame → s ∈ w.made)
    (values : Dict String Value) :
    Retold seed frame m (Occurrence.publication s.scopes values) (m.publish s values) := by
  unfold Occurrence.publication Machine.publish
  by_cases hempty : values.isEmpty
  · rw [if_pos hempty, if_pos hempty]
    exact .refl m
  · rw [if_neg hempty, if_neg hempty]
    exact .one (.publish s values) (.published (Bool.eq_false_iff.2 hempty)) rfl rfl fun w hw =>
      ⟨hs w hw, congrArg (s.publish · values) hw.store⟩

/-- That a wait was interrupted is on the course, but no scope changes. -/
theorem recordWait (m : Machine) (scope : ScopeId) (site : Site) (token : String) :
    Retold seed frame m [.interrupted scope site token] (m.recordWait scope site token) :=
  .one .read .interrupted rfl rfl fun _ hw => ⟨trivial, hw.store⟩

/-- A call is on the course, but no scope changes. -/
theorem recordCall (x : Execution) (m : Machine) (id : String) (c : ActionCall) :
    Retold seed frame m [.called frame.top id c (x.backend m.calls c)]
      (m.countExecution.recordCall frame.top id c (x.backend m.calls c)) :=
  .one .read .called rfl rfl fun _ hw => ⟨trivial, hw.store⟩

/-! ### Waiting and calling -/

variable (seed frame)

/-- **Events.** What others do are operations on the root. -/
theorem perform (m : Machine) (e : Effect) :
    ∃ happened, Retold seed frame m happened (m.perform e) := by
  cases e with
  | publish values => exact ⟨_, .publish (fun _ hw => hw.root) values⟩
  | cancel =>
    refine ⟨_, .one (.cancel m.root) .cancelled rfl rfl fun w hw => ?_⟩
    exact ⟨hw.lt_size hw.root List.mem_cons_self, congrArg (Store.cancel · m.root) hw.store⟩

/-- **Calls.** What happens while an action is called are operations of others. -/
theorem performDuring (site : Site) (events : List Event) : ∀ m : Machine, ∃ happened,
    Retold seed frame m happened (Machine.performDuring site m events) := by
  induction events with
  | nil => exact fun m => ⟨[], .reschedule m []⟩
  | cons e rest ih =>
    intro m
    unfold Machine.performDuring
    by_cases hfits : e.trigger.fitsCall site
    · rw [if_pos hfits]
      obtain ⟨done, hdone⟩ := perform seed frame m e.effect
      obtain ⟨later, hlater⟩ := ih (m.perform e.effect)
      exact ⟨_, hdone.trans hlater⟩
    · rw [if_neg hfits]
      exact ⟨[], .reschedule m _⟩

/-- **Waiting.** What happens while a node waits are operations of others. -/
theorem awaitDuring (stack : Stack) (site : Site) (limit : Nat) (token : String)
    (events : List Event) : ∀ m : Machine, ∃ happened,
      Retold seed frame m happened (Machine.awaitDuring stack site limit token m events).2 := by
  induction events with
  | nil =>
    intro m
    unfold Machine.awaitDuring
    cases m.settled? stack token with
    | some answer => exact ⟨[], .reschedule m []⟩
    | none => exact ⟨[], .elapse m limit []⟩
  | cons e rest ih =>
    intro m
    unfold Machine.awaitDuring
    cases m.settled? stack token with
    | some answer => exact ⟨[], .reschedule m _⟩
    | none =>
      dsimp only
      by_cases hfits : e.trigger.fits site
      · -- The event happens, and the node goes on waiting.
        rw [if_pos hfits]
        obtain ⟨done, hdone⟩ := perform seed frame (m.recordWait stack.top site token) e.effect
        obtain ⟨later, hlater⟩ := ih ((m.recordWait stack.top site token).perform e.effect)
        exact ⟨_, ((recordWait m stack.top site token).trans hdone).trans hlater⟩
      · rw [if_neg hfits]
        exact ⟨[], .elapse m limit _⟩

/-- Several waits in a row, by induction on the tokens. -/
theorem awaitAll (stack : Stack) (site : Site) (limit : Nat) (tokens : List String) :
    ∀ m : Machine, ∃ happened,
      Retold seed frame m happened (m.awaitAll stack site limit tokens).2 := by
  induction tokens with
  | nil => exact fun m => ⟨[], .refl m⟩
  | cons token rest ih =>
    intro m
    obtain ⟨first, hfirst⟩ := awaitDuring seed frame stack site limit token m.schedule m
    unfold Machine.awaitAll Machine.await
    generalize Machine.awaitDuring stack site limit token m m.schedule = waited at *
    obtain ⟨answer, m₁⟩ := waited
    cases answer with
    | error e => exact ⟨first, hfirst⟩
    | ok v =>
      obtain ⟨later, hlater⟩ := ih m₁
      exact ⟨first ++ later, hfirst.trans hlater⟩

end Retold

section

variable {seed : Dict String Value} {x : Execution} {frame : Frame} {m m₁ m' : Machine}
  {happened : List Occurrence}

/-- A wait after a change of the innermost scope. -/
theorem Awaited.retold_after {c : Change} {id : String} {limit : Nat} {tokens : List String}
    {answer : Except WaitError (List Value)}
    (h : Awaited frame id limit tokens (m.change frame.top c) happened answer m₁) :
    Retold seed frame m ([.changed frame.top c] ++ happened) m₁ := by
  obtain ⟨happened', hretold⟩ := Retold.awaitAll seed frame frame.stack
    ⟨id, frame.path⟩ limit tokens (m.change frame.top c)
  rw [h.eq] at hretold
  obtain rfl : happened = happened' :=
    List.append_cancel_left (h.course.symm.trans hretold.course)
  exact (Retold.change m c).trans hretold

/-- A call, with what others do during it. -/
theorem Called.retold {id : String} {c : ActionCall} {answer : Except ActionError ActionResult}
    {heard : List Occurrence} (h : Called x frame id c m answer heard m') :
    Retold seed frame m ([.called frame.top id c answer] ++ heard) m' := by
  obtain ⟨rfl, rfl, hcourse⟩ := h
  obtain ⟨heard', hheard⟩ := Retold.performDuring seed frame ⟨id, frame.path⟩ m.schedule
    (m.countExecution.recordCall frame.top id c (x.backend m.calls c))
  have hretold := (Retold.recordCall x m id c).trans hheard
  obtain rfl : heard = heard' :=
    List.append_cancel_left (List.append_cancel_left (hcourse.symm.trans hretold.course))
  exact hretold

/-! ### Nodes and iterations -/

/-- The waits, the changes and the call of an action. -/
theorem Acts.retold {id urn : String} {params exports : Dict String String} {outcome : Outcome}
    (h : Acts x frame id urn params exports m happened outcome m') :
    Retold seed frame m happened m' := by
  cases h with
  | starved hw => exact hw.retold_after.andChange _
  | failed hw hcall => exact ((hw.retold_after.andChange _).trans hcall.retold).andChange _
  | done hw hcall =>
    have hcalled : Retold seed frame m _ _ := (hw.retold_after.andChange _).trans hcall.retold
    exact (hcalled.trans (.publish (fun _ hw => hw.stack) _)).andChange _

/-- The waits of a choice and its verdict. -/
theorem Decides.retold {id condition : String} {answer : Except Failure Bool}
    (h : Decides x frame id condition m happened answer m') :
    Retold seed frame m happened m' := by
  cases h with
  | malformed => exact (Retold.change m _).andChange _
  | starved _ hw | undecidable _ hw _ | decided _ hw _ => exact hw.retold_after.andChange _

/-- Opening an iteration makes the stack that its body runs in. -/
theorem hosts_openIteration {w : Scene} (hw : w.Hosts seed m frame) (id : String)
    (itemAs : Option String) (index : Nat) (value : Value) : ∃ ops w₁, w.Becomes ops w₁ ∧
      w₁.Hosts seed (m.openIteration frame id itemAs index value)
        (frame.inner id index m.store.size) ∧
      List.Forall₂ Occurrence.Tells (openingOf frame id itemAs index value m.store.size) ops := by
  have hpush : w.Becomes [.pushChild frame.stack] _ := .one hw.stack
  have hopened : (w.after (.pushChild frame.stack)).Hosts seed (m.pushChild frame.stack).2 frame :=
    hw.goOn hpush (congrArg (fun store => (frame.stack.pushChild store).2) hw.store) rfl
  obtain ⟨ops, w₁, hstart, hstore, htells⟩ := (Retold.change (m.pushChild frame.stack).2
    (.startIteration id index value m.store.size)).operations _ hopened
  have hstack : frame.stack.push m.store.size ∈ w₁.made := by
    rw [← hw.size_eq]
    exact hstart.made_subset List.mem_cons_self
  have hinner : w₁.Hosts seed ((m.pushChild frame.stack).2.change frame.top
      (.startIteration id index value m.store.size)) (frame.inner id index m.store.size) :=
    ⟨hstart.family hopened.family, hstore, hstart.made_subset hopened.root, hstack⟩
  have hboth := hpush.trans hstart
  have htells' : List.Forall₂ Occurrence.Tells (.opened m.store.size :: _)
      (.pushChild frame.stack :: _) := .cons .opened htells
  cases itemAs with
  | none => exact ⟨_, w₁, hboth, hinner, htells'⟩
  | some name =>
    -- The new scope is on top now, so it is the one that is changed.
    obtain ⟨later, w₂, hitem, hstore', hlater⟩ := (Retold.change _
      (.publish (.singleton name value))).operations w₁ hinner
    exact ⟨_, w₂, hboth.trans hitem, hinner.goOn hitem hstore' rfl,
      List.rel_append htells' hlater⟩

/-- An iteration that is opened, and what follows in its scope. -/
theorem Retold.round {id : String} {itemAs : Option String} {index : Nat} {value : Value}
    (h : Retold seed (frame.inner id index m.store.size)
      (m.openIteration frame id itemAs index value) happened m') :
    Retold seed frame m (openingOf frame id itemAs index value m.store.size ++ happened) m' := by
  have hopening : (m.openIteration frame id itemAs index value).course =
      m.course ++ openingOf frame id itemAs index value m.store.size := by
    cases itemAs <;> simp [Machine.course, Machine.openIteration, Machine.change,
      Machine.pushChild, Stack.pushChild, Stack.push, Store.openIn, openingOf]
  refine ⟨h.root.trans (by cases itemAs <;> rfl), ?_, fun w hw => ?_⟩
  · rw [h.course, hopening, List.append_assoc]
  obtain ⟨ops, w₁, hopen, hw₁, htells⟩ := hosts_openIteration hw id itemAs index value
  obtain ⟨later, w', hlater, hstore, htells'⟩ := h.operations w₁ hw₁
  exact ⟨_, w', hopen.trans hlater, hstore, List.rel_append htells htells'⟩

/-! ### Executions -/

/-- **Executions.** Each thing that happens in an execution is an operation. -/
theorem Exec.retold {task : Task} {outcome : Outcome}
    (h : Exec x frame task m happened outcome m') : Retold seed frame m happened m' := by
  induction h with
  | nil | stopped | noRounds => exact .refl _
  | failed _ _ ih | lastRound _ ih => exact ih
  | cons _ _ _ ih ih' | nextRound _ _ ih ih' => exact ih.trans ih'
  | action h => exact h.retold
  | undecided h => exact h.retold
  | decided h _ ih => exact h.retold.trans ih
  | starved hw => exact hw.retold_after.andChange _
  | broken hw _ ih => exact hw.retold_after.trans ih
  | finished hw _ ih => exact (hw.retold_after.trans ih).andChange _
  | refused => exact .change _ _
  | completed _ _ ih | passed _ _ _ _ ih =>
    rw [List.append_assoc]
    exact (ih.andChange _).round
  | halted _ _ _ _ ih =>
    rw [List.append_assoc (openingOf _ _ _ _ _ _)]
    exact (ih.andChange _).round.andChange _
  | interrupted _ _ ih => exact ih.round.andChange _

/-! ### Starts and sessions -/

/-- A whole start, from the root scope. -/
theorem retold_start (seed : Dict String Value) (x : Execution) (hm : m.root < m.store.size) :
    ∃ happened, Retold seed m.outermost m happened (x.start m).2 := by
  obtain ⟨happened, hstarted⟩ := started_start x hm
  obtain ⟨m₁, hexec, hend⟩ := hstarted.exec
  rw [hend]
  exact ⟨_, hexec.retold.andChange _⟩

/-- A deed, be it a start or an event from outside. -/
theorem retold_undergo (h : m.Standing x.backend seed) (d : Deed) :
    ∃ happened, Retold seed m.outermost m happened (x.undergo m d) := by
  cases d with
  | start events =>
    obtain ⟨happened, hstart⟩ := retold_start seed x (h.reschedule events).root
    exact ⟨_, (Retold.reschedule m events).trans hstart⟩
  | outside effect => exact Retold.perform seed m.outermost m effect

/-- The deeds of a session, by induction on them. -/
theorem retold_deeds (deeds : List Deed) : ∀ {m : Machine}, m.Standing x.backend seed →
    ∃ happened, Retold seed m.outermost m happened (deeds.foldl x.undergo m) := by
  induction deeds with
  | nil => exact fun {m} _ => ⟨[], .refl m⟩
  | cons d rest ih =>
    intro m h
    obtain ⟨first, hfirst⟩ := retold_undergo h d
    obtain ⟨later, hlater⟩ := ih (standing_undergo h d)
    -- The root stays the same, and so does the frame of the nodes at the top.
    rw [Machine.outermost, hfirst.root] at hlater
    exact ⟨first ++ later, hfirst.trans hlater⟩

/-! ### The law of versions -/

/-- An occurrence and the operation it tells change each scope alike. -/
theorem Occurrence.Tells.changesOf_eq {o : Occurrence} {op : Operation} (h : o.Tells op)
    {w : Scene} (hw : w.IsFamily seed) (hallows : w.Allows op) (scope : ScopeId) :
    o.changesOf scope = op.changesOf scope := by
  cases h with
  | @published s values hvalues =>
    show List.replicate (s.scopes.count scope) _ =
      if values.isEmpty then [] else if scope ∈ s.scopes then [Change.publish values] else []
    rw [if_neg (Bool.eq_false_iff.1 hvalues)]
    by_cases hscope : scope ∈ s.scopes
    · rw [if_pos hscope, List.count_eq_one_of_mem (hw.nodup s hallows) hscope]
      rfl
    · rw [if_neg hscope, List.count_eq_zero_of_not_mem hscope]
      rfl
  | _ => rfl

/-- The journal tells of all changes that the operations make. -/
theorem Scene.Becomes.changesOf_eq {w w' : Scene} {ops : List Operation} (h : w.Becomes ops w')
    (hw : w.IsFamily seed) (htells : List.Forall₂ Occurrence.Tells happened ops)
    (scope : ScopeId) :
    happened.flatMap (Occurrence.changesOf scope) =
      ops.flatMap (Operation.changesOf scope) := by
  induction h generalizing happened with
  | refl =>
    cases htells
    rfl
  | step hallows _ ih =>
    cases htells with
    | cons hop hrest =>
      rw [List.flatMap_cons, List.flatMap_cons, hop.changesOf_eq hw hallows,
        ih (hw.after hallows) hrest]

end

/-- What takes a machine from `m` to `m'` are operations, one for each thing that happens. -/
structure Scene.Replays (w : Scene) (m : Machine) (happened : List Occurrence)
    (ops : List Operation) (m' : Machine) (w' : Scene) : Prop where
  course : m'.course = m.course ++ happened
  becomes : w.Becomes ops w'
  store : w'.store = m'.store
  tells : List.Forall₂ Occurrence.Tells happened ops
  /-- The journal tells of all changes of a scope. -/
  changes : ∀ scope, happened.flatMap (Occurrence.changesOf scope) =
    ops.flatMap (Operation.changesOf scope)
  /-- Between any two things that happen there is a moment. -/
  between : ∀ earlier rest, happened = earlier ++ rest → ∃ before after w₁,
    ops = before ++ after ∧ List.Forall₂ Occurrence.Tells earlier before ∧
      w.Becomes before w₁ ∧ w₁.Becomes after w'

/-- A stretch that is `Retold` is replayed in every scene that hosts the machine. -/
theorem Retold.replays {seed : Dict String Value} {frame : Frame} {m m' : Machine}
    {happened : List Occurrence} (h : Retold seed frame m happened m') {w : Scene}
    (hw : w.Hosts seed m frame) : ∃ ops w', w.Replays m happened ops m' w' := by
  obtain ⟨ops, w', hops, hstore, htells⟩ := h.operations w hw
  refine ⟨ops, w', h.course, hops, hstore, htells, hops.changesOf_eq hw.family htells, ?_⟩
  rintro earlier rest rfl
  have hsplit : ops = ops.take earlier.length ++ ops.drop earlier.length :=
    (List.take_append_drop _ _).symm
  have hearlier := List.forall₂_take earlier.length htells
  rw [List.take_left] at hearlier
  rw [hsplit] at hops
  obtain ⟨w₁, hbefore, hafter⟩ := hops.split
  exact ⟨_, _, w₁, hsplit, hearlier, hbefore, hafter⟩

/-- The law of versions.  The moments of a tree are the scenes that operations make of it. -/
structure VersionsDetect : Prop where
  /-- No operation changes a scope twice. -/
  once : ∀ scope (op : Operation), (op.changesOf scope).length ≤ 1
  /-- From any moment to any later one, the versions count the changes in between and detect that
      there were some. -/
  counted : ∀ seed before later (w w' : Scene), (Scene.opening seed).Becomes before w →
    w.Becomes later w' → w.Counted later w'
  /-- The start of an execution on the root of a stack goes through such moments, one for each thing
      on its journal. -/
  started : ∀ seed before (w : Scene) (x : Execution) (m : Machine),
    (Scene.opening seed).Becomes before w → w.store = m.store → .of m.root ∈ w.made →
      ∃ happened later w', w.Replays m happened later (x.start m).2 w'
  /-- So does all that is done with an execution from outside. -/
  sessions : ∀ seed (x : Execution) (deeds more : List Deed), ∃ before w happened later w',
    (Scene.opening seed).Becomes before w ∧ w.store = (x.session seed deeds).store ∧
      w.Replays (x.session seed deeds) happened later (x.session seed (deeds ++ more)) w'

/-- **Versions.** Every change of a scope is detected by its version. -/
theorem versions_detect : VersionsDetect where
  once := Operation.length_changesOf_le
  counted seed _ _ _ _ hbefore hlater := hlater.counted (hbefore.family .root)
  started seed _ w x m hbefore hstore hroot := by
    have hw : w.Hosts seed m m.outermost := ⟨hbefore.family .root, hstore, hroot, hroot⟩
    have hm : m.root < m.store.size := hw.size_eq ▸ hw.top_lt
    obtain ⟨happened, hretold⟩ := retold_start seed x hm
    exact ⟨happened, hretold.replays hw⟩
  sessions seed x deeds more := by
    -- The stack of the root is made before anything else is done.
    have hmade : (Scene.opening seed).Becomes [.stackOf 0] _ := .one Nat.one_pos
    have hfresh : Scene.Hosts seed ((Scene.opening seed).after (.stackOf 0)) (.fresh seed)
        (Machine.fresh seed).outermost :=
      ⟨hmade.family .root, rfl, List.mem_cons_self, List.mem_cons_self⟩
    have hstanding := standing_fresh x.backend seed
    obtain ⟨_, hdeeds⟩ := retold_deeds deeds hstanding
    obtain ⟨before, w, hbefore, hstore, -⟩ := hdeeds.operations _ hfresh
    have hw := hfresh.goOn hbefore hstore hdeeds.root
    obtain ⟨happened, hmore⟩ := retold_deeds more (standing_session x seed deeds)
    rw [Machine.outermost, Execution.session, hdeeds.root] at hmore
    obtain ⟨later, w', hreplays⟩ := hmore.replays hw
    refine ⟨_, w, happened, later, w', hmade.trans hbefore, hstore, ?_⟩
    rw [Execution.session, Execution.session, List.foldl_append]
    exact hreplays

end Runbook
