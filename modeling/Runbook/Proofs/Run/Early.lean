import Runbook.Proofs.Run.Lockstep
import Runbook.Proofs.Run.Sessions

namespace Runbook

/-!
# Running a graph — values that are published early or late

Values may be published before a run, or when a node first waits for what is not there.  If the
graph exports nothing to their names, the two runs differ in nothing but the values that the scope
of the whole runbook knows until then.

* `Scope.Ahead` — a scope that is like another one, but knows some values besides
  (`Scope.Ahead.apply`: and stays so);
* `Store.Ahead` — stores that are alike, but for the values that the root scope of one knows;
* `Machine.Ahead` — machines whose stores are so, as long as the values are to come on the other;
* `catchingUp` — the simulation;
* `Deed.early`, `Deed.late`, `early_session` — the outcome, the calls and all records are the same.
-/

/-! ### Scopes -/

/-- The values that a change writes into its scope. -/
def Change.exports : Change → Dict String Value
  | completeAction _ _ values | publish values => values
  | _ => ∅

namespace Scope

/-- A change adds its exports to those of the scope. -/
theorem exported_apply (s : Scope) (c : Change) :
    (s.apply c).exported = s.exported.extend c.exports := by
  cases c with
  | finishLoop id =>
    obtain ⟨loops, hloops⟩ := s.change_finishLoop id
    show (s.change (.finishLoop id)).exported = s.exported
    rw [hloops]
  | _ => rfl

/-- Two scopes have the same on record, and ended in the same way. -/
structure SameRecords (s s' : Scope) : Prop where
  actions : s.actions = s'.actions
  choices : s.choices = s'.choices
  loops : s.loops = s'.loops
  completed : s.completed = s'.completed
  error : s.error = s'.error

/-- A scope is like another one, but that it knows some values besides. -/
structure Ahead (values : Dict String Value) (s s' : Scope) : Prop extends s.SameRecords s' where
  seed : s.seed = s'.seed
  exported : ∀ name, s.exported.get? name = (values.get? name).or (s'.exported.get? name)

variable {values : Dict String Value} {s s' : Scope}

/-- The same change on both sides. -/
theorem SameRecords.apply (h : s.SameRecords s') (c : Change) :
    (s.apply c).SameRecords (s'.apply c) := by
  obtain ⟨version, completed, error, actions, choices, loops, exported, seed⟩ := s
  obtain ⟨version', completed', error', actions', choices', loops', exported', seed'⟩ := s'
  obtain ⟨rfl, rfl, rfl, rfl, rfl⟩ := h
  cases c with
  | finishLoop id =>
    by_cases hid : loops.contains id
    · constructor <;> simp [Scope.apply, change, hid, updateLoop]
    · constructor <;> simp [Scope.apply, change, hid]
  | _ => exact ⟨rfl, rfl, rfl, rfl, rfl⟩

/-- No change touches the alert data. -/
theorem seed_apply (s : Scope) (c : Change) : (s.apply c).seed = s.seed := by
  cases c with
  | finishLoop id =>
    obtain ⟨loops, hloops⟩ := s.change_finishLoop id
    show (s.change (.finishLoop id)).seed = s.seed
    rw [hloops]
  | _ => rfl

namespace Ahead

/-- A scope is ahead of itself by nothing. -/
theorem refl (s : Scope) : s.Ahead ∅ s := ⟨⟨rfl, rfl, rfl, rfl, rfl⟩, rfl, fun _ => rfl⟩

/-- A change that writes none of the values keeps a scope ahead by them. -/
theorem apply (h : s.Ahead values s') {c : Change}
    (hc : ∀ name, (values.get? name).isSome → c.exports.get? name = none) :
    (s.apply c).Ahead values (s'.apply c) where
  toSameRecords := h.toSameRecords.apply c
  seed := by rw [seed_apply, seed_apply, h.seed]
  exported name := by
    rw [exported_apply, exported_apply, Dict.get?_extend, Dict.get?_extend, h.exported]
    cases hname : values.get? name with
    | none => rfl
    | some v =>
      rw [hc name (by rw [hname]; rfl)]
      rfl

/-- A scope catches up when the values are published. -/
theorem publish (h : s.Ahead values s') : s.Ahead ∅ (s'.apply (.publish values)) where
  actions := h.actions
  choices := h.choices
  loops := h.loops
  completed := h.completed
  error := h.error
  seed := h.seed
  exported name := by
    rw [h.exported, exported_apply, Dict.get?_extend]
    rfl

/-- A scope gets ahead when values are published in it. -/
theorem of_publish (s : Scope) (values : Dict String Value) :
    (s.apply (.publish values)).Ahead values s where
  actions := rfl
  choices := rfl
  loops := rfl
  completed := rfl
  error := rfl
  seed := rfl
  exported name := by
    rw [exported_apply, Dict.get?_extend]
    rfl

/-- What is found in a scope is found in the one that is ahead. -/
theorem lookup_eq_some (h : s.Ahead values s')
    (hnew : ∀ name, (values.get? name).isSome → s'.exported.get? name = none) {token : String}
    {v : Value} (hv : s'.lookup token = some v) : s.lookup token = some v := by
  refine lookup_mono h.seed.symm h.actions.symm (fun name v hname => ?_) hv
  rw [h.exported, hname]
  cases hahead : values.get? name with
  | none => rfl
  | some v' =>
    rw [hnew name (by rw [hahead]; rfl)] at hname
    cases hname

/-- Scopes that know the same values find the same. -/
theorem lookup_eq (h : s.Ahead ∅ s') (token : String) : s.lookup token = s'.lookup token :=
  lookup_congr h.seed h.actions h.exported

end Ahead

end Scope

/-! ### Stores -/

/-- Two stores are alike, but that the root scope of one of them knows some values besides. -/
structure Store.Ahead (values : Dict String Value) (k : Nat) (store store' : Store) : Prop where
  size : store.size = k
  size' : store'.size = k
  calm : store.cancelled = []
  calm' : store'.cancelled = []
  root : (store.scope 0).Ahead values (store'.scope 0)
  inner : ∀ s, s ≠ 0 → (store.scope s).Ahead ∅ (store'.scope s)
  /-- Nothing else was exported to the names of the values. -/
  unknown : ∀ name, (values.get? name).isSome → (store'.scope 0).exported.get? name = none

/-- A stack of scopes that are there, the root scope undermost. -/
structure Stack.Rooted (k : Nat) (stack : Stack) : Prop where
  there : ∀ s ∈ stack.scopes, s < k
  undermost : ∃ inner, stack.scopes = inner ++ [0] ∧ ∀ s ∈ inner, s ≠ 0

/-- A rooted stack has a scope. -/
theorem Stack.Rooted.pos {k : Nat} {stack : Stack} (h : stack.Rooted k) : 0 < k := by
  obtain ⟨inner, hscopes, -⟩ := h.undermost
  exact h.there 0 (by rw [hscopes]; simp)

/-- Iterations are opened on top of a rooted stack. -/
theorem Stack.Rooted.push {k : Nat} {stack : Stack} (h : stack.Rooted k) :
    (stack.push k).Rooted (k + 1) where
  there s hs := by
    rcases List.mem_cons.1 hs with rfl | hs
    · exact Nat.lt_succ_self s
    · exact Nat.lt_succ_of_lt (h.there s hs)
  undermost := by
    obtain ⟨inner, hscopes, hinner⟩ := h.undermost
    refine ⟨k :: inner, ?_, fun s hs => ?_⟩
    · show k :: stack.scopes = _
      rw [hscopes]
      rfl
    · rcases List.mem_cons.1 hs with rfl | hs
      · exact Nat.ne_of_gt h.pos
      · exact hinner s hs

namespace Store.Ahead

variable {values : Dict String Value} {k : Nat} {store store' : Store} {stack : Stack}

/-- A change of one scope, which must not write the values in the root scope. -/
theorem apply (h : Ahead values k store store') {s : ScopeId} (hs : s < k) {c : Change}
    (hc : s = 0 → ∀ name, (values.get? name).isSome → c.exports.get? name = none) :
    Ahead values k (store.apply s c) (store'.apply s c) := by
  have hthere : s < store.size := h.size ▸ hs
  have hthere' : s < store'.size := h.size' ▸ hs
  constructor
  case size => rw [Store.size_apply, h.size]
  case size' => rw [Store.size_apply, h.size']
  case calm => exact h.calm
  case calm' => exact h.calm'
  case root =>
    rw [Store.scope_apply hthere, Store.scope_apply hthere']
    -- Only the root scopes differ, and not in the names that are written.
    by_cases hroot : s = 0
    · rw [if_pos hroot, if_pos hroot]
      exact h.root.apply (hc hroot)
    · rw [if_neg hroot, if_neg hroot]
      exact h.root
  case inner =>
    intro t ht
    rw [Store.scope_apply hthere, Store.scope_apply hthere']
    by_cases heq : s = t
    · rw [if_pos heq, if_pos heq]
      exact (h.inner t ht).apply fun name hname => by cases hname
    · rw [if_neg heq, if_neg heq]
      exact h.inner t ht
  case unknown =>
    intro name hname
    rw [Store.scope_apply hthere']
    by_cases hroot : s = 0
    · rw [if_pos hroot, Scope.exported_apply, Dict.get?_extend, hc hroot name hname,
        h.unknown name hname]
      rfl
    · rw [if_neg hroot]
      exact h.unknown name hname

/-- A scope is opened on both sides. -/
theorem openIn (h : Ahead values k store store') (parent : ScopeId) :
    Ahead values (k + 1) (store.openIn parent).2 (store'.openIn parent).2 where
  size := by rw [Store.size_openIn, h.size]
  size' := by rw [Store.size_openIn, h.size']
  calm := h.calm
  calm' := h.calm'
  root := by
    rw [Store.scope_openIn, Store.scope_openIn]
    exact h.root
  inner s hs := by
    rw [Store.scope_openIn, Store.scope_openIn]
    exact h.inner s hs
  unknown := by
    rw [Store.scope_openIn]
    exact h.unknown

/-- Other values are published on both sides. -/
theorem publish (h : Ahead values k store store') (hstack : ∀ s ∈ stack.scopes, s < k)
    {others : Dict String Value}
    (hothers : ∀ name, (values.get? name).isSome → others.get? name = none) :
    Ahead values k (stack.publish store others) (stack.publish store' others) := by
  unfold Stack.publish
  by_cases hempty : others.isEmpty
  · rw [if_pos hempty, if_pos hempty]
    exact h
  · rw [if_neg hempty, if_neg hempty]
    generalize stack.scopes = scopes at hstack
    induction scopes with
    | nil => exact h
    | cons s rest ih =>
      exact (ih fun s hs => hstack s (List.mem_cons_of_mem _ hs)).apply
        (hstack s List.mem_cons_self) fun _ => hothers

/-- The other store catches up when the values are published. -/
theorem catchUp (h : Ahead values k store store') (hk : 0 < k) :
    Ahead ∅ k store ((Stack.of 0).publish store' values) := by
  have hthere' : 0 < store'.size := h.size' ▸ hk
  unfold Stack.publish
  by_cases hempty : values.isEmpty
  · rw [if_pos hempty]
    obtain rfl : values = ∅ := Dict.ext (List.isEmpty_iff.1 hempty)
    exact h
  rw [if_neg hempty]
  show Ahead ∅ k store (store'.apply 0 (.publish values))
  constructor
  case size => exact h.size
  case size' => rw [Store.size_apply, h.size']
  case calm => exact h.calm
  case calm' => exact h.calm'
  case root =>
    rw [Store.scope_apply hthere', if_pos rfl]
    exact h.root.publish
  case inner =>
    intro s hs
    rw [Store.scope_apply hthere', if_neg hs.symm]
    exact h.inner s hs
  case unknown => exact fun name hname => by cases hname

/-- A store gets ahead when values are published in it before anything else happens. -/
theorem of_fresh (seed values : Dict String Value) :
    Ahead values 1 ((Stack.of 0).publish (Machine.fresh seed).store values)
      (Machine.fresh seed).store := by
  have hthere : 0 < (Machine.fresh seed).store.size := Nat.one_pos
  unfold Stack.publish
  by_cases hempty : values.isEmpty
  · rw [if_pos hempty]
    obtain rfl : values = ∅ := Dict.ext (List.isEmpty_iff.1 hempty)
    exact ⟨rfl, rfl, rfl, rfl, .refl _, fun _ _ => .refl _, fun _ _ => rfl⟩
  rw [if_neg hempty]
  show Ahead values 1 ((Machine.fresh seed).store.apply 0 (.publish values)) _
  constructor
  case size => exact Store.size_apply _ _ _
  case size' => rfl
  case calm => rfl
  case calm' => rfl
  case root =>
    rw [Store.scope_apply hthere, if_pos rfl]
    exact .of_publish _ values
  case inner =>
    intro s hs
    rw [Store.scope_apply hthere, if_neg hs.symm]
    exact .refl _
  case unknown => exact fun _ _ => rfl

/-- Neither tree is cancelled. -/
theorem not_isCancelled (h : Ahead values k store store') (stack : Stack) :
    stack.isCancelled store = false ∧ stack.isCancelled store' = false := by
  unfold Stack.isCancelled Store.isCancelled
  rw [h.calm, h.calm']
  exact ⟨rfl, rfl⟩

/-- What is found on a stack is found as well where values are known ahead, since the root scope is
    asked last. -/
theorem lookup_eq_some (h : Ahead values k store store') (hstack : stack.Rooted k)
    {token : String} {v : Value} (hv : stack.lookup store' token = some v) :
    stack.lookup store token = some v := by
  obtain ⟨inner, hscopes, hinner⟩ := hstack.undermost
  have hsame : (inner.findSome? fun s => (store.scope s).lookup token) =
      inner.findSome? fun s => (store'.scope s).lookup token :=
    findSome?_congr fun s hs => (h.inner s (hinner s hs)).lookup_eq token
  rw [Stack.lookup, hscopes, List.findSome?_append, hsame]
  rw [Stack.lookup, hscopes, List.findSome?_append] at hv
  cases hfound : inner.findSome? fun s => (store'.scope s).lookup token with
  | some v' =>
    rw [hfound] at hv
    exact hv
  | none =>
    rw [hfound, Option.none_or, List.findSome?_singleton] at hv
    rw [Option.none_or, List.findSome?_singleton]
    exact h.root.lookup_eq_some h.unknown hv

/-- Where the same values are known, the same is found. -/
theorem lookup_eq (h : Ahead ∅ k store store') (stack : Stack) (token : String) :
    stack.lookup store token = stack.lookup store' token := by
  refine findSome?_congr fun s _ => ?_
  by_cases hs : s = 0
  · subst hs
    exact h.root.lookup_eq token
  · exact (h.inner s hs).lookup_eq token

/-- All scopes have the same records on both sides. -/
theorem sameRecords (h : Ahead values k store store') (s : ScopeId) :
    (store.scope s).SameRecords (store'.scope s) := by
  by_cases hs : s = 0
  · subst hs
    exact h.root.toSameRecords
  · exact (h.inner s hs).toSameRecords

end Store.Ahead

/-! ### Machines -/

/-- The values that are still to come are published as soon as a node waits. -/
inductive Pending (values : Dict String Value) : Dict String Value → List Event → Prop
  | waiting : Pending values values [⟨.anyWait, .publish values⟩]
  | done : Pending values ∅ []

/-- They are not published while an action is called. -/
theorem Pending.unheard {values ahead : Dict String Value} {events : List Event}
    (h : Pending values ahead events) (site : Site) :
    ∀ e ∈ events.head?, e.trigger.fitsCall site = false := by
  intro e he
  cases h with
  | waiting =>
    obtain rfl := Option.some.inj he
    rfl
  | done => cases he

/-- What is exported to other names than those of the values is so to other names than those of the
    values to come. -/
theorem Pending.spared {values ahead exports : Dict String Value} {events : List Event}
    (h : Pending values ahead events) (hexports : ∀ name ∈ exports.keys, values.get? name = none)
    (name : String) (hname : (ahead.get? name).isSome) : exports.get? name = none := by
  cases h with
  | done => cases hname
  | waiting =>
    refine Option.eq_none_iff_forall_ne_some.2 fun v hv => ?_
    have hkey : name ∈ exports.keys := List.mem_map_of_mem (Dict.mem_entries.2 hv)
    rw [hexports name hkey] at hname
    cases hname

/-- On one machine the values are known, and on the other they are known or still to come. -/
structure Machine.Ahead (values : Dict String Value) (k : Nat) (m m' : Machine) : Prop where
  root : m.root = 0
  root' : m'.root = 0
  schedule : m.schedule = []
  calls : m.calls = m'.calls
  store : ∃ ahead, Pending values ahead m'.schedule ∧ m.store.Ahead ahead k m'.store

/-- A change that a node makes to its own scope exports to the names of the node. -/
theorem Change.Plain.exports_of_mem {exports : String → Prop} {c : Change} (h : c.Plain exports)
    {name : String} (hname : name ∈ c.exports.keys) : exports name := by
  cases c with
  | completeAction => exact h name hname
  | publish => exact absurd h fun hfalse => hfalse
  | _ => cases hname

/-- What publishing values does to a machine, and what it does not. -/
theorem Machine.publish_fields (m : Machine) (stack : Stack) (values : Dict String Value) :
    (m.publish stack values).store = stack.publish m.store values ∧
      (m.publish stack values).root = m.root ∧
      (m.publish stack values).schedule = m.schedule ∧
      (m.publish stack values).calls = m.calls := by
  unfold Machine.publish Stack.publish
  by_cases hempty : values.isEmpty
  · rw [if_pos hempty, if_pos hempty]
    exact ⟨rfl, rfl, rfl, rfl⟩
  · rw [if_neg hempty, if_neg hempty]
    exact ⟨rfl, rfl, rfl, rfl⟩

namespace Machine.Ahead

variable {values : Dict String Value} {k : Nat} {m m' : Machine} {stack : Stack}

/-- The same change on both machines. -/
theorem change (h : Ahead values k m m') {s : ScopeId} (hs : s < k) {c : Change}
    (hc : s = 0 → ∀ name ∈ c.exports.keys, values.get? name = none) :
    Ahead values k (m.change s c) (m'.change s c) := by
  obtain ⟨ahead, hpending, hstore⟩ := h.store
  exact ⟨h.root, h.root', h.schedule, h.calls, ahead, hpending,
    hstore.apply hs fun hroot => hpending.spared (hc hroot)⟩

/-- Other values are published on both machines. -/
theorem publish (h : Ahead values k m m') (hstack : stack.Rooted k) {others : Dict String Value}
    (hothers : ∀ name ∈ others.keys, values.get? name = none) :
    Ahead values k (m.publish stack others) (m'.publish stack others) := by
  obtain ⟨ahead, hpending, hstore⟩ := h.store
  obtain ⟨hstore₁, hroot, hschedule, hcalls⟩ := Machine.publish_fields m stack others
  obtain ⟨hstore₁', hroot', hschedule', hcalls'⟩ := Machine.publish_fields m' stack others
  refine ⟨hroot.trans h.root, hroot'.trans h.root', hschedule.trans h.schedule, ?_, ahead, ?_, ?_⟩
  · rw [hcalls, hcalls', h.calls]
  · rwa [hschedule']
  · rw [hstore₁, hstore₁']
    exact hstore.publish hstack.there (hpending.spared hothers)

/-- A scope is opened on both machines. -/
theorem pushChild (h : Ahead values k m m') (stack : Stack) :
    Ahead values (k + 1) (m.pushChild stack).2 (m'.pushChild stack).2 := by
  obtain ⟨ahead, hpending, hstore⟩ := h.store
  exact ⟨h.root, h.root', h.schedule, h.calls, ahead, hpending, hstore.openIn stack.top⟩

/-- The other machine has caught up once the values are published while a node waits. -/
theorem perform (h : Ahead values k m m') (hstore : m.store.Ahead values k m'.store) (hk : 0 < k)
    (scope : ScopeId) (site : Site) (token : String) :
    ((m'.recordWait scope site token).perform (.publish values)).root = 0 ∧
      m.calls = ((m'.recordWait scope site token).perform (.publish values)).calls ∧
      m.store.Ahead ∅ k ((m'.recordWait scope site token).perform (.publish values)).store := by
  obtain ⟨hpublished, hroot, -, hcalls⟩ :=
    Machine.publish_fields (m'.recordWait scope site token) (.of m'.root) values
  refine ⟨hroot.trans h.root', h.calls.trans hcalls.symm, ?_⟩
  show m.store.Ahead ∅ k ((m'.recordWait scope site token).publish (.of m'.root) values).store
  rw [hpublished, h.root']
  exact hstore.catchUp hk

/-- Where nothing is still to come, a wait in which nothing happens has the same end on both
    machines: it finds what there is, or its limit elapses. -/
theorem quiet (h : Ahead values k m m') (hschedule : m'.schedule = []) (found : Option Value)
    (token : String) (limit : Nat) :
    let ended (m : Machine) : Except WaitError Value × Machine := match found with
      | some v => (.ok v, m)
      | none => (.error (.timedOut token limit), m.elapse limit [])
    Ahead values k (ended m).2 (ended m').2 ∧ (ended m).1 = (ended m').1 ∧
      ∀ token', (ended m).1 ≠ .error (.cancelled token') := by
  obtain ⟨ahead, hpending, hstore⟩ := h.store
  cases found with
  | some v => exact ⟨h, rfl, fun token' heq => by cases heq⟩
  | none =>
    rw [hschedule] at hpending
    exact ⟨⟨h.root, h.root', rfl, h.calls, ahead, hpending, hstore⟩, rfl,
      fun token' heq => by cases heq⟩

/-- A wait has the same end on both machines, since the values come before it ends. -/
theorem await (h : Ahead values k m m') (hstack : stack.Rooted k) (site : Site) (limit : Nat)
    (token : String) :
    Ahead values k (m.await stack site limit token).2 (m'.await stack site limit token).2 ∧
      (m.await stack site limit token).1 = (m'.await stack site limit token).1 ∧
      ∀ token', (m.await stack site limit token).1 ≠ .error (.cancelled token') := by
  obtain ⟨ahead, hpending, hstore⟩ := h.store
  obtain ⟨hcalm, hcalm'⟩ := hstore.not_isCancelled stack
  rw [Machine.await_quiet h.schedule hcalm]
  generalize hevents : m'.schedule = events at hpending
  cases hpending with
  | done =>
    rw [Machine.await_quiet hevents hcalm', hstore.lookup_eq]
    exact h.quiet hevents _ token limit
  | waiting =>
    rw [Machine.await_one hevents hcalm']
    cases hfound : stack.lookup m'.store token with
    | some v =>
      rw [hstore.lookup_eq_some hstack hfound]
      exact ⟨h, rfl, fun token' heq => by cases heq⟩
    | none =>
      -- The node waits, so the values are published and looked up again.
      obtain ⟨hroot', hcalls', hcaught⟩ := h.perform hstore hstack.pos stack.top site token
      dsimp only
      rw [Machine.awaitDuring_nil (hcaught.not_isCancelled stack).2, hcaught.lookup_eq]
      have hahead : Ahead values k m
          { (m'.recordWait stack.top site token).perform (.publish values) with schedule := [] } :=
        ⟨h.root, hroot', h.schedule, hcalls', ∅, .done, hcaught⟩
      exact hahead.quiet rfl _ token limit

end Machine.Ahead

/-! ### Runs -/

/-- **Catching up.** Nodes that export nothing to the names of the values are run in step, whether
    the values are known or still to come. -/
def catchingUp (x : Execution) (values : Dict String Value) : Simulation x where
  alike := Machine.Ahead values
  frames k frame frame' := frame = frame' ∧ frame.stack.Rooted k
  cancels := False
  reads _ := True
  exports name := values.get? name = none
  items _ := True
  mono := by
    rintro k k' frame _ hk ⟨rfl, hrooted⟩
    exact ⟨rfl, fun s hs => Nat.lt_of_lt_of_le (hrooted.there s hs) hk, hrooted.undermost⟩
  isCancelled := by
    rintro k frame _ m m' ⟨rfl, -⟩ hm
    obtain ⟨ahead, -, hstore⟩ := hm.store
    obtain ⟨hcalm, hcalm'⟩ := hstore.not_isCancelled frame.stack
    rw [hcalm, hcalm']
    exact ⟨rfl, fun h => by cases h⟩
  change := by
    rintro k frame _ m m' c ⟨rfl, hrooted⟩ hc hm
    exact hm.change (hrooted.there _ frame.top_mem) fun _ _ => hc.exports_of_mem
  await := by
    rintro k frame _ m m' id limit token ⟨rfl, hrooted⟩ - hm
    obtain ⟨hm₁, hanswer, hcalm⟩ := hm.await hrooted ⟨id, frame.path⟩ limit token
    exact ⟨hm₁, hanswer, fun token' h => hcalm token' h⟩
  call := by
    rintro k frame _ m m' id c ⟨rfl, -⟩ hm
    have hanswer : x.backend m.calls c = x.backend m'.calls c := by rw [hm.calls]
    obtain ⟨ahead, hpending, -⟩ := hm.store
    rw [Execution.called_eq (by simp [hm.schedule]), Execution.called_eq (hpending.unheard _)]
    exact ⟨hanswer, hm.root, hm.root', hm.schedule, congrArg (c :: ·) hm.calls, hm.store⟩
  publish := by
    rintro k frame _ m m' others ⟨rfl, hrooted⟩ hothers hm
    exact hm.publish hrooted hothers
  openIteration := by
    rintro k frame _ m m' id itemAs index v ⟨rfl, hrooted⟩ - hm
    obtain ⟨ahead, -, hstore⟩ := hm.store
    have htop : frame.top < k + 1 := Nat.lt_succ_of_lt (hrooted.there _ frame.top_mem)
    have hstart := (hm.pushChild frame.stack).change htop
      (c := .startIteration id index v k) fun _ name hname => by cases hname
    refine ⟨k + 1, Nat.le_succ k, ?_, ?_⟩
    · unfold Machine.openIteration
      rw [hstore.size, hstore.size']
      cases itemAs with
      | none => exact hstart
      | some name =>
        exact hstart.change (Nat.lt_succ_self k) fun hroot =>
          absurd hroot (Nat.ne_of_gt hrooted.pos)
    · rw [hstore.size, hstore.size']
      exact ⟨rfl, hrooted.push⟩

/-- Runs from machines of which one knows the values end in the same way. -/
theorem Machine.Ahead.start {x : Execution} {values : Dict String Value} {k : Nat}
    {m m' : Machine} (h : Machine.Ahead values k m m') (hk : 0 < k)
    (hexports : ∀ n ∈ Node.listing x.graph.nodes, ∀ name ∈ n.exportNames,
      values.get? name = none) :
    (x.start m).1 = (x.start m').1 ∧
      ∃ k', Machine.Ahead values k' (x.start m).2 (x.start m').2 := by
  have hrooted : (Stack.of 0).Rooted k :=
    ⟨fun s hs => by rwa [List.mem_singleton.1 hs], [], rfl, fun s hs => by cases hs⟩
  obtain ⟨k₁, hk₁, hm₁, hended⟩ := (catchingUp x values).runNodes x.graph.nodes k ⟨.of 0, []⟩
    ⟨.of 0, []⟩ ⟨rfl, hrooted⟩ (fun n hn => ⟨fun _ _ => trivial, hexports n hn,
      fun _ _ => trivial⟩) m m' h
  obtain ⟨houtcome, -⟩ := hended.outcome_eq
  unfold Execution.start
  rw [h.root, h.root']
  change _ = _ ∧ ∃ k', Machine.Ahead values k'
    (Machine.change _ (Machine.root (Run.on _ m).2) (Outcome.closing (Run.on _ m).1))
    (Machine.change _ (Machine.root (Run.on _ m').2) (Outcome.closing (Run.on _ m').1))
  rw [hm₁.root, hm₁.root', ← houtcome]
  refine ⟨houtcome, k₁, hm₁.change (Nat.lt_of_lt_of_le hk hk₁) fun _ name hname => ?_⟩
  generalize (Run.on _ m).1 = outcome at hname
  rcases outcome with f | ⟨⟩ <;> cases hname

/-- A machine that is given values before a run, and one that is to get them. -/
theorem ahead_fresh (seed values : Dict String Value) :
    Machine.Ahead values 1 { (Machine.fresh seed).perform (.publish values) with schedule := [] }
      { Machine.fresh seed with schedule := [⟨.anyWait, .publish values⟩] } := by
  obtain ⟨hstore, hroot, -, hcalls⟩ := Machine.publish_fields (.fresh seed) (.of 0) values
  refine ⟨hroot, rfl, rfl, hcalls, values, .waiting, ?_⟩
  show Store.Ahead values 1 ((Machine.fresh seed).publish (.of 0) values).store _
  rw [hstore]
  exact .of_fresh seed values

/-- Values are published before a run, in which nothing else is to come. -/
def Deed.early (values : Dict String Value) : List Deed := [.outside (.publish values), .start []]

/-- Values are published in a run when a node first waits for what is not there. -/
def Deed.late (values : Dict String Value) : List Deed := [.start [⟨.anyWait, .publish values⟩]]

/-- **Early or late.** Whether values are published before a run or when a node first waits, the run
    ends in the same way, after the same calls and with the same on record, if no node exports to
    the names of the values.  It is no matter by which names loops call their elements, since others
    publish nothing to the scopes of iterations. -/
theorem early_session (x : Execution) (seed values : Dict String Value)
    (hexports : ∀ n ∈ Node.listing x.graph.nodes, ∀ name ∈ n.exportNames,
      values.get? name = none) :
    x.outcomes (.fresh seed) (Deed.early values) = x.outcomes (.fresh seed) (Deed.late values) ∧
      (x.session seed (Deed.early values)).calls = (x.session seed (Deed.late values)).calls ∧
      (x.session seed (Deed.early values)).store.size =
        (x.session seed (Deed.late values)).store.size ∧
      ∀ s, ((x.session seed (Deed.early values)).store.scope s).SameRecords
        ((x.session seed (Deed.late values)).store.scope s) := by
  obtain ⟨houtcome, k, hahead⟩ := (ahead_fresh seed values).start Nat.one_pos hexports
  obtain ⟨ahead, -, hstore⟩ := hahead.store
  exact ⟨congrArg (fun outcome => [outcome]) houtcome, hahead.calls,
    hstore.size.trans hstore.size'.symm, hstore.sameRecords⟩

/-- An action that exports its payload, and a loop with an action for every element. -/
def relayRun : Execution where
  graph := ⟨[.action "1" "u" (.singleton "p" "@alert:k") (.singleton "b" "result"),
    .loop "2" "$h" (some "x") [.action "3" "v" ((Dict.singleton "p" "$x").insert "q" "$b") ∅]]⟩
  backend _ call := .ok { raw := call.urn }

def relaySeed : Dict String Value := .singleton "k" (.scalar "1")

def relayValues : Dict String Value := .singleton "h" (.list ["o", "p"])

/-- The loop waits for its elements, after the action has exported to another name. -/
theorem early_relayRun :
    relayRun.outcomes (.fresh relaySeed) (Deed.early relayValues) =
        relayRun.outcomes (.fresh relaySeed) (Deed.late relayValues) ∧
      (relayRun.session relaySeed (Deed.early relayValues)).calls =
        (relayRun.session relaySeed (Deed.late relayValues)).calls ∧
      (relayRun.session relaySeed (Deed.early relayValues)).store.size =
        (relayRun.session relaySeed (Deed.late relayValues)).store.size ∧
      ∀ s, ((relayRun.session relaySeed (Deed.early relayValues)).store.scope s).SameRecords
        ((relayRun.session relaySeed (Deed.late relayValues)).store.scope s) := by
  have hexports : ∀ n ∈ Node.listing relayRun.graph.nodes, ∀ name ∈ n.exportNames,
      relayValues.get? name = none := by decide +kernel
  exact early_session relayRun relaySeed relayValues hexports

example : (relayRun.session relaySeed (Deed.late relayValues)).calls.length = 3 := by
  decide +kernel

end Runbook
