import Runbook.Proofs.Run.Lockstep
import Runbook.Proofs.Run.OneTree
import Runbook.Proofs.Run.Tree

namespace Runbook

/-!
# Running a graph — the same nodes in other surroundings

What nodes without exports do takes place in the scopes that are opened for them, and depends on
nothing but what they look up in the scopes around.  So the same nodes do the same in all
surroundings that they see alike, but that their scopes have other numbers.

* `Scope.relocate` — a scope whose iterations run in scopes with other numbers
  (`Scope.relocate_apply`: changes and new numbers commute);
* `Machine.Above` — a machine on which nothing happens but in scopes from a number on;
* `Twins` — two such machines that are alike in these scopes;
* `twinning` — the simulation of nodes without exports on such machines.
-/

/-! ### Other numbers for scopes -/

/-- A change that tells of an iteration by another number of its scope. -/
def Change.relocate (f : ScopeId → ScopeId) : Change → Change
  | startIteration id index value child => .startIteration id index value (f child)
  | c => c

/-- A plain change names no scope, so it stays as it is. -/
theorem Change.Plain.relocate {exports : String → Prop} {c : Change} (h : c.Plain exports)
    (f : ScopeId → ScopeId) : c.relocate f = c := by
  cases c with
  | startIteration => exact absurd h fun hfalse => hfalse
  | _ => rfl

def Iteration.relocate (f : ScopeId → ScopeId) (i : Iteration) : Iteration := ⟨i.value, f i.scope⟩

def LoopRecord.relocate (f : ScopeId → ScopeId) (r : LoopRecord) : LoopRecord :=
  { r with
    current := r.current.map (Iteration.relocate f)
    history := r.history.map (Iteration.relocate f) }

/-- A scope whose iterations run in scopes with other numbers. -/
def Scope.relocate (f : ScopeId → ScopeId) (s : Scope) : Scope :=
  { s with loops := s.loops.map (LoopRecord.relocate f) }

section

variable (f : ScopeId → ScopeId)

/-- The current iteration joins the history under its other number. -/
theorem LoopRecord.relocate_freeze (r : LoopRecord) :
    r.freeze.relocate f = (r.relocate f).freeze := by
  obtain ⟨waiting, done, error, index, current, history⟩ := r
  cases current with
  | none => rfl
  | some i => simp [freeze, relocate, Dict.map_insert]

/-- Scopes with other numbers change in the same way. -/
theorem Scope.relocate_apply (s : Scope) (c : Change) :
    (s.apply c).relocate f = (s.relocate f).apply (c.relocate f) := by
  -- What renumbering does to a record it does to the record in its scope.
  have hloops : ∀ (id : String) (g g' : LoopRecord → LoopRecord),
      (∀ r, (g r).relocate f = g' (r.relocate f)) →
      (s.updateLoop id g).relocate f = (s.relocate f).updateLoop id g' := by
    intro id g g' h
    simp only [updateLoop, relocate]
    rw [Dict.map_update _ h]
    rfl
  suffices hchange : (s.change c).relocate f = (s.relocate f).change (c.relocate f) by
    simp only [apply, ← hchange]
    rfl
  cases c with
  | startLoop id waiting =>
    exact hloops id (fun _ => { waiting := waiting }) (fun _ => { waiting := waiting }) fun _ => rfl
  | startIteration id index value child =>
    refine hloops id _ _ fun r => ?_
    rw [← LoopRecord.relocate_freeze]
    rfl
  | failLoop id error =>
    refine hloops id _ _ fun r => ?_
    rw [← LoopRecord.relocate_freeze]
    rfl
  | finishLoop id =>
    show Scope.relocate f (if s.loops.contains id then _ else s) =
      if (s.loops.map _).contains id then _ else s.relocate f
    rw [Dict.contains_map]
    by_cases hid : s.loops.contains id
    · rw [if_pos hid, if_pos hid]
      refine hloops id _ _ fun r => ?_
      rw [← LoopRecord.relocate_freeze]
      rfl
    · rw [if_neg hid, if_neg hid]
  | _ => rfl

/-- The numbers of scopes do not matter to what is looked up. -/
theorem Scope.lookup_relocate (s : Scope) (token : String) :
    (s.relocate f).lookup token = s.lookup token :=
  lookup_congr rfl rfl fun _ => rfl

end

/-! ### The scopes of iterations on record -/

/-- All iterations on record of a loop run in certain scopes. -/
structure LoopRecord.Spans (inner : ScopeId → Prop) (r : LoopRecord) : Prop where
  current : ∀ i, r.current = some i → inner i.scope
  history : ∀ index i, r.history.get? index = some i → inner i.scope

/-- All iterations on record in a scope run in certain scopes. -/
def Scope.Spans (inner : ScopeId → Prop) (s : Scope) : Prop :=
  ∀ id r, s.loops.get? id = some r → r.Spans inner

/-- Freezing keeps the scopes of a record. -/
theorem LoopRecord.Spans.freeze {inner : ScopeId → Prop} {r : LoopRecord} (h : r.Spans inner) :
    r.freeze.Spans inner := by
  obtain ⟨waiting, done, error, number, current, history⟩ := r
  cases current with
  | none => exact h
  | some i =>
    refine ⟨h.current, fun index i' hi' => ?_⟩
    rw [LoopRecord.freeze, Dict.get?_insert] at hi'
    by_cases hindex : index = number
    · rw [if_pos hindex] at hi'
      rw [← Option.some.inj hi']
      exact h.current i rfl
    · rw [if_neg hindex] at hi'
      exact h.history index i' hi'

namespace Scope.Spans

variable {inner inner' : ScopeId → Prop} {s : Scope}

/-- `Spans` is monotone in the scopes that are allowed. -/
theorem mono (h : s.Spans inner) (hle : ∀ t, inner t → inner' t) : s.Spans inner' :=
  fun id r hr => ⟨fun i hi => hle _ ((h id r hr).current i hi),
    fun index i hi => hle _ ((h id r hr).history index i hi)⟩

/-- A change of one record keeps `Spans`, if it keeps it of that record. -/
theorem updateLoop (h : s.Spans inner) (id : String) {g : LoopRecord → LoopRecord}
    (hg : ∀ r : LoopRecord, r.Spans inner → (g r).Spans inner) :
    (s.updateLoop id g).Spans inner := by
  intro id' r hr
  rw [Scope.updateLoop, Dict.get?_update] at hr
  by_cases hid : id' = id
  · rw [if_pos hid, Option.some.injEq] at hr
    rw [← hr]
    refine hg _ ?_
    cases hold : s.loops.get? id with
    | none => exact ⟨fun i hi => (by cases hi), fun index i hi => (by cases hi)⟩
    | some r => exact h id r hold
  · rw [if_neg hid] at hr
    exact h id' r hr

/-- A change that starts no iteration elsewhere keeps the iterations on record inside. -/
theorem apply (h : s.Spans inner) {c : Change}
    (hc : ∀ id index v child, c = .startIteration id index v child → inner child) :
    (s.apply c).Spans inner := by
  suffices hchange : (s.change c).Spans inner from hchange
  cases c with
  | startLoop id waiting =>
    exact h.updateLoop id (g := fun _ => { waiting := waiting }) fun r _ =>
      ⟨fun i hi => (by cases hi), fun index i hi => (by cases hi)⟩
  | startIteration id index v child =>
    refine h.updateLoop id fun r hr => ⟨fun i hi => ?_, hr.freeze.history⟩
    rw [← Option.some.inj hi]
    exact hc id index v child rfl
  | failLoop id =>
    exact h.updateLoop id fun r hr => ⟨hr.freeze.current, hr.freeze.history⟩
  | finishLoop id =>
    show Scope.Spans inner (if s.loops.contains id then _ else s)
    by_cases hid : s.loops.contains id
    · rw [if_pos hid]
      exact h.updateLoop id fun r hr => ⟨hr.freeze.current, hr.freeze.history⟩
    · rw [if_neg hid]
      exact h
  | _ => exact h

end Scope.Spans

/-! ### Machines on which only new scopes change -/

namespace Store

/-- No change of a scope cancels it. -/
theorem isCancelled_apply (s : Store) (id : ScopeId) (c : Change) (scope : ScopeId) :
    (s.apply id c).isCancelled scope = s.isCancelled scope := by
  rw [isCancelled, tree_apply]
  rfl

/-- A new scope is in the tree of its parent. -/
theorem isCancelled_openIn (s : Store) (parent scope : ScopeId) :
    (s.openIn parent).2.isCancelled scope =
      if scope = s.size then s.isCancelled parent else s.isCancelled scope := by
  unfold isCancelled tree openIn size
  simp only [Array.getD_eq_getD_getElem?, Array.getElem?_push]
  by_cases h : scope = s.cells.size
  · rw [if_pos h, if_pos h, Option.getD_some, tree, Array.getD_eq_getD_getElem?]
  · rw [if_neg h, if_neg h]

end Store

/-- Since the machine `base`, nothing has happened on a machine but in the scopes from `first` on,
    of which there are `k`.  There is nothing to come, and nothing is cancelled there. -/
structure Machine.Above (m : Machine) (first : Nat) (base : Machine) (k : Nat) : Prop where
  size : m.store.size = first + k
  schedule : m.schedule = []
  below : ∀ s < first, m.store.scope s = base.store.scope s ∧
    m.store.isCancelled s = base.store.isCancelled s
  calm : ∀ d < k, m.store.isCancelled (first + d) = false
  closed : ∀ d, (m.store.scope (first + d)).Spans fun t => ∃ e < k, t = first + e

namespace Machine.Above

variable {first k d : Nat} {base m : Machine}

/-- The scopes from `first` on are in the store. -/
theorem there (h : m.Above first base k) (hd : d < k) : first + d < m.store.size := by
  rw [h.size]
  exact Nat.add_lt_add_left hd first

/-- Letting time pass changes no scope. -/
theorem elapse (h : m.Above first base k) (limit : Nat) : (m.elapse limit []).Above first base k :=
  ⟨h.size, rfl, h.below, h.calm, h.closed⟩

/-- A change of one of the new scopes; an iteration that it starts is among them too. -/
theorem change (h : m.Above first base k) (hd : d < k) {c : Change}
    (hc : ∀ id index v child, c = .startIteration id index v child → ∃ e < k, child = first + e) :
    (m.change (first + d) c).Above first base k := by
  have hthere := h.there hd
  constructor
  case size => rw [Machine.size_change, h.size]
  case schedule => exact h.schedule
  case below =>
    intro s hs
    obtain ⟨hscope, hcancelled⟩ := h.below s hs
    refine ⟨?_, (Store.isCancelled_apply _ _ _ s).trans hcancelled⟩
    rw [← hscope]
    exact (Store.scope_apply hthere c s).trans
      (if_neg (Nat.ne_of_gt (Nat.lt_of_lt_of_le hs (Nat.le_add_right first d))))
  case calm => exact fun e he => (Store.isCancelled_apply _ _ _ _).trans (h.calm e he)
  case closed =>
    intro e
    show ((m.store.apply (first + d) c).scope (first + e)).Spans _
    rw [Store.scope_apply hthere]
    by_cases heq : first + d = first + e
    · rw [if_pos heq]
      exact (h.closed e).apply hc
    · rw [if_neg heq]
      exact h.closed e

/-- The next new scope comes after the `k` that are there. -/
theorem pushChild (h : m.Above first base k) (hd : d < k) {stack : Stack}
    (htop : stack.top = first + d) : (m.pushChild stack).2.Above first base (k + 1) := by
  have hcancelled : ∀ s, (m.pushChild stack).2.store.isCancelled s =
      if s = m.store.size then m.store.isCancelled stack.top else m.store.isCancelled s :=
    Store.isCancelled_openIn m.store stack.top
  have hscope : ∀ s, (m.pushChild stack).2.store.scope s = m.store.scope s :=
    Store.scope_openIn m.store stack.top
  constructor
  case size =>
    rw [← Nat.add_assoc, ← h.size]
    exact Store.size_openIn _ _
  case schedule => exact h.schedule
  case below =>
    intro s hs
    have hold : s < m.store.size := by
      rw [h.size]
      exact Nat.lt_add_right k hs
    rw [hscope, hcancelled, if_neg (Nat.ne_of_lt hold)]
    exact h.below s hs
  case calm =>
    intro e he
    rw [hcancelled, h.size]
    by_cases heq : e = k
    · rw [if_pos (by rw [heq]), htop]
      exact h.calm d hd
    · rw [if_neg fun hsame => heq (Nat.add_left_cancel hsame)]
      exact h.calm e (Nat.lt_of_le_of_ne (Nat.le_of_lt_succ he) heq)
  case closed =>
    intro e
    rw [hscope]
    exact (h.closed e).mono fun t ⟨e', he', ht⟩ => ⟨e', Nat.lt_succ_of_lt he', ht⟩

end Machine.Above

/-! ### Twins -/

/-- The number that a scope from `first` on has on the other side, where the numbers begin with
    `first'`. -/
def shift (first first' : Nat) (s : ScopeId) : ScopeId := first' + (s - first)

/-- `shift` takes the `d`-th scope after `first` to the `d`-th after `first'`. -/
theorem shift_add (first first' d : Nat) : shift first first' (first + d) = first' + d := by
  rw [shift, Nat.add_sub_cancel_left]

/-- Two machines on which the same has happened in new scopes, but for the numbers of scopes. -/
structure Twins (first first' : Nat) (base base' : Machine) (k : Nat) (m m' : Machine) : Prop where
  above : m.Above first base k
  above' : m'.Above first' base' k
  scopes : ∀ d, m'.store.scope (first' + d) =
    (m.store.scope (first + d)).relocate (shift first first')

namespace Twins

variable {first first' k d : Nat} {base base' m m' : Machine}

/-- Time passes on both sides. -/
theorem elapse (h : Twins first first' base base' k m m') (limit : Nat) :
    Twins first first' base base' k (m.elapse limit []) (m'.elapse limit []) :=
  ⟨h.above.elapse limit, h.above'.elapse limit, h.scopes⟩

/-- The same change on both sides, up to the numbers of scopes. -/
theorem change (h : Twins first first' base base' k m m') (hd : d < k) {c : Change}
    (hc : ∀ id index v child, c = .startIteration id index v child → ∃ e < k, child = first + e) :
    Twins first first' base base' k (m.change (first + d) c)
      (m'.change (first' + d) (c.relocate (shift first first'))) := by
  have hc' : ∀ id index v child, c.relocate (shift first first') =
      .startIteration id index v child → ∃ e < k, child = first' + e := by
    intro id index v child heq
    cases c with
    | startIteration id' index' v' child' =>
      obtain ⟨e, he, rfl⟩ := hc _ _ _ _ rfl
      rw [Change.relocate, shift_add] at heq
      cases heq
      exact ⟨e, he, rfl⟩
    | _ => cases heq
  refine ⟨h.above.change hd hc, h.above'.change hd hc', fun e => ?_⟩
  show (m'.store.apply _ _).scope _ = ((m.store.apply _ _).scope _).relocate _
  rw [Store.scope_apply (h.above'.there hd), Store.scope_apply (h.above.there hd), h.scopes]
  by_cases heq : d = e
  · rw [if_pos (by rw [heq]), if_pos (by rw [heq]), Scope.relocate_apply]
  · have hne : ∀ n : Nat, n + d ≠ n + e := fun n hsame => heq (Nat.add_left_cancel hsame)
    rw [if_neg (hne _), if_neg (hne _)]

/-- The next new scope on both sides, with the same number up to `shift`. -/
theorem pushChild (h : Twins first first' base base' k m m') (hd : d < k) {stack stack' : Stack}
    (htop : stack.top = first + d) (htop' : stack'.top = first' + d) :
    Twins first first' base base' (k + 1) (m.pushChild stack).2 (m'.pushChild stack').2 where
  above := h.above.pushChild hd htop
  above' := h.above'.pushChild hd htop'
  scopes e := by
    have hscope : (m'.pushChild stack').2.store.scope (first' + e) = _ :=
      Store.scope_openIn m'.store stack'.top _
    have hscope' : (m.pushChild stack).2.store.scope (first + e) = _ :=
      Store.scope_openIn m.store stack.top _
    rw [hscope, hscope', h.scopes]

end Twins

/-- Two frames of twins: above the scopes around, the same new scopes. -/
def TwinFrames (first first' : Nat) (around around' : List ScopeId) (k : Nat)
    (frame frame' : Frame) : Prop :=
  ∃ d rest, frame.stack = ⟨first + d, rest.map (first + ·) ++ around⟩ ∧
    frame'.stack = ⟨first' + d, rest.map (first' + ·) ++ around'⟩ ∧ ∀ e ∈ d :: rest, e < k

namespace TwinFrames

variable {first first' k : Nat} {around around' : List ScopeId} {frame frame' : Frame}

/-- The innermost scopes of twin frames are new ones, the `d`-th each. -/
theorem top (h : TwinFrames first first' around around' k frame frame') :
    ∃ d < k, frame.top = first + d ∧ frame'.top = first' + d := by
  obtain ⟨d, rest, hstack, hstack', hlt⟩ := h
  exact ⟨d, hlt d List.mem_cons_self, congrArg Stack.top hstack, congrArg Stack.top hstack'⟩

/-- Frames stay twins when more scopes are opened. -/
theorem mono (h : TwinFrames first first' around around' k frame frame') {k' : Nat} (hk : k ≤ k') :
    TwinFrames first first' around around' k' frame frame' := by
  obtain ⟨d, rest, hstack, hstack', hlt⟩ := h
  exact ⟨d, rest, hstack, hstack', fun e he => Nat.lt_of_lt_of_le (hlt e he) hk⟩

/-- An iteration gets the next new scope on both sides. -/
theorem inner (h : TwinFrames first first' around around' k frame frame') (id : String)
    (index : Nat) : TwinFrames first first' around around' (k + 1)
      (frame.inner id index (first + k)) (frame'.inner id index (first' + k)) := by
  obtain ⟨d, rest, hstack, hstack', hlt⟩ := h
  refine ⟨k, d :: rest, ?_, ?_, fun e he => ?_⟩
  · show frame.stack.push (first + k) = _
    rw [hstack]
    rfl
  · show frame'.stack.push (first' + k) = _
    rw [hstack']
    rfl
  · rcases List.mem_cons.1 he with rfl | he
    · exact Nat.lt_succ_self e
    · exact Nat.lt_succ_of_lt (hlt e he)

/-- Nothing is cancelled where twins run. -/
theorem calm (h : TwinFrames first first' around around' k frame frame')
    {base base' m m' : Machine} (hm : Twins first first' base base' k m m') :
    frame.stack.isCancelled m.store = false ∧ frame'.stack.isCancelled m'.store = false := by
  obtain ⟨d, rest, hstack, hstack', hlt⟩ := h
  rw [hstack, hstack']
  exact ⟨hm.above.calm d (hlt d List.mem_cons_self), hm.above'.calm d (hlt d List.mem_cons_self)⟩

/-- Twins look up the same if so they do in the scopes around. -/
theorem lookup_eq (h : TwinFrames first first' around around' k frame frame')
    {base base' m m' : Machine} (hm : Twins first first' base base' k m m')
    (haround : ∀ s ∈ around, s < first) (haround' : ∀ s ∈ around', s < first') {token : String}
    (hreads : (around.findSome? fun s => (base.store.scope s).lookup token) =
      around'.findSome? fun s => (base'.store.scope s).lookup token) :
    frame.stack.lookup m.store token = frame'.stack.lookup m'.store token := by
  obtain ⟨d, rest, hstack, hstack', -⟩ := h
  have hbelow : (around.findSome? fun s => (m.store.scope s).lookup token) =
      around.findSome? fun s => (base.store.scope s).lookup token :=
    findSome?_congr fun s hs => by rw [(hm.above.below s (haround s hs)).1]
  have hbelow' : (around'.findSome? fun s => (m'.store.scope s).lookup token) =
      around'.findSome? fun s => (base'.store.scope s).lookup token :=
    findSome?_congr fun s hs => by rw [(hm.above'.below s (haround' s hs)).1]
  have hinner : ∀ e, (m'.store.scope (first' + e)).lookup token =
      (m.store.scope (first + e)).lookup token := fun e => by
    rw [hm.scopes, Scope.lookup_relocate]
  have hscopes : frame.stack.scopes = (d :: rest).map (first + ·) ++ around := by rw [hstack]; rfl
  have hscopes' : frame'.stack.scopes = (d :: rest).map (first' + ·) ++ around' := by
    rw [hstack']
    rfl
  rw [Stack.lookup, Stack.lookup, hscopes, hscopes', List.findSome?_append, List.findSome?_append,
    hbelow, hbelow', hreads, List.findSome?_map, List.findSome?_map]
  exact congrArg (fun found => Option.or found _) (findSome?_congr fun e _ => (hinner e).symm)

end TwinFrames

/-- A dictionary without keys has no entries. -/
theorem isEmpty_of_keys {values : Dict String Value} (h : ∀ name ∈ values.keys, False) :
    values.isEmpty := by
  rw [Dict.isEmpty, List.isEmpty_iff]
  exact List.map_eq_nil_iff.1 (List.eq_nil_iff_forall_not_mem.2 h)

/-- **Twins.** Nodes without exports are run in step in surroundings that look alike to them. -/
def twinning (x : Execution)
    (hbackend : ∀ before before' c, x.backend before c = x.backend before' c)
    (first first' : Nat) (base base' : Machine) {around around' : List ScopeId}
    (haround : ∀ s ∈ around, s < first) (haround' : ∀ s ∈ around', s < first') : Simulation x where
  alike := Twins first first' base base'
  frames := TwinFrames first first' around around'
  cancels := False
  reads token := (around.findSome? fun s => (base.store.scope s).lookup token) =
    around'.findSome? fun s => (base'.store.scope s).lookup token
  exports _ := False
  items _ := True
  mono hk hframes := hframes.mono hk
  isCancelled := by
    intro k frame frame' m m' hframes hm
    obtain ⟨hcalm, hcalm'⟩ := hframes.calm hm
    rw [hcalm, hcalm']
    exact ⟨rfl, fun h => by cases h⟩
  change := by
    intro k frame frame' m m' c hframes hc hm
    obtain ⟨d, hd, htop, htop'⟩ := hframes.top
    have hchange := hm.change hd (c := c) fun id index v child heq => by
      rw [heq] at hc
      exact absurd hc fun hfalse => hfalse
    rw [htop, htop']
    rwa [hc.relocate] at hchange
  await := by
    intro k frame frame' m m' id limit token hframes hreads hm
    obtain ⟨hcalm, hcalm'⟩ := hframes.calm hm
    rw [Machine.await_quiet hm.above.schedule hcalm, Machine.await_quiet hm.above'.schedule hcalm',
      hframes.lookup_eq hm haround haround' hreads]
    cases frame'.stack.lookup m'.store token with
    | some v => exact ⟨hm, rfl, fun token' h => by cases h⟩
    | none => exact ⟨hm.elapse limit, rfl, fun token' h => by cases h⟩
  call := by
    intro k frame frame' m m' id c hframes hm
    -- With nothing to come, nothing happens in the calls either.
    rw [Execution.called_eq (by simp [hm.above.schedule]),
      Execution.called_eq (by simp [hm.above'.schedule])]
    exact ⟨hbackend _ _ c, ⟨hm.above.size, hm.above.schedule, hm.above.below, hm.above.calm,
      hm.above.closed⟩, ⟨hm.above'.size, hm.above'.schedule, hm.above'.below, hm.above'.calm,
      hm.above'.closed⟩, hm.scopes⟩
  publish := by
    intro k frame frame' m m' values hframes hvalues hm
    rw [Machine.publish, if_pos (isEmpty_of_keys hvalues), Machine.publish,
      if_pos (isEmpty_of_keys hvalues)]
    exact hm
  openIteration := by
    intro k frame frame' m m' id itemAs index value hframes _ hm
    obtain ⟨d, hd, htop, htop'⟩ := hframes.top
    refine ⟨k + 1, Nat.le_succ k, ?_, ?_⟩
    · have hpush := hm.pushChild hd htop htop'
      have hstart := hpush.change (Nat.lt_succ_of_lt hd)
        (c := .startIteration id index value (first + k)) fun _ _ _ child heq =>
          ⟨k, Nat.lt_succ_self k, (Change.startIteration.inj heq).2.2.2.symm⟩
      rw [Change.relocate, shift_add, ← hm.above.size, ← hm.above'.size, ← htop, ← htop'] at hstart
      unfold Machine.openIteration
      cases itemAs with
      | none => exact hstart
      | some name =>
        have hitem := hstart.change (Nat.lt_succ_self k) (c := .publish (.singleton name value))
          fun _ _ _ _ heq => by cases heq
        rw [← hm.above.size, ← hm.above'.size] at hitem
        exact hitem
    · rw [hm.above.size, hm.above'.size]
      exact hframes.inner id index

end Runbook
