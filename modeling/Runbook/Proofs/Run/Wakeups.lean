import Runbook.Proofs.Run.OneTree
import Runbook.Proofs.Run.Threads

namespace Runbook

/-!
# Waiting — no wake-up is lost

A thread that waits reads the epoch before it looks for its token, and it goes to sleep only if the
epoch is still the one it has read.  Threads that change a scope raise the epoch after the change.
So whatever a waiting thread has missed, either the epoch has moved since it was read, or somebody
is about to raise it.

* `Threads.Owed`, `Threads.Stirred` — an epoch is to be raised; it has moved, or is to be raised;
* `Threads.View`, `Threads.Watching` — what a waiting thread has seen, and what that is worth later;
* `Threads.Onward` — what a step of other threads can do to what a thread relies on;
* `Threads.Justified`, `Threads.Told` — what a thread did right before it answered;
* `Threads.Sound`, `Threads.sound_take`, `Threads.sound_run` — the invariant, for a turn and a run;
* `Threads.noLostWakeUp_run` — the law of waiting, for any number of threads and all their turns.
-/

namespace Store

/-! ### Scopes that are opened -/

/-- Opening a scope leaves alone what is there. -/
theorem getD_push {cells : Array Cell} {id : ScopeId} (h : id < cells.size) (cell : Cell) :
    (cells.push cell).getD id default = cells.getD id default := by
  simp only [Array.getD_eq_getD_getElem?, Array.getElem?_push]
  rw [if_neg (Nat.ne_of_lt h)]

end Store

namespace Threads

/-! ### What waiting threads have seen -/

/-- What a waiting thread has seen. -/
structure View where
  wait : Wait
  /-- The epoch that it has read. -/
  seen : Nat
  /-- Whether it has found since then that the tree is not cancelled. -/
  checked : Bool
  /-- The scopes that it has looked at in vain since then. -/
  passed : List ScopeId
  /-- Whether the epoch cannot have moved. -/
  still : Bool

namespace Phase

/-- The wait that a thread is at, until it has an answer. -/
def wait? : Phase → Option Wait
  | reads w | checks w _ | enters w _ | looks w _ _ | misses w _ | rests w _ | settles w _
  | lies w _ | asleep w _ => some w
  | _ => none

def view? : Phase → Option View
  | checks w seen => some ⟨w, seen, false, [], false⟩
  | enters w seen => some ⟨w, seen, true, [], false⟩
  | looks w seen k => some ⟨w, seen, true, w.stack.scopes.take k, false⟩
  | misses w seen | rests w seen => some ⟨w, seen, true, w.stack.scopes, false⟩
  | settles w seen | lies w seen | asleep w seen => some ⟨w, seen, true, w.stack.scopes, true⟩
  | _ => none

end Phase

variable {s s' : Threads} {t tree seen : Nat} {th th' : Thread} {p p' : Phase} {move : Move}

/-! ### Raising an epoch -/

/-- Some thread has still to raise the epoch of the tree. -/
def Owed (s : Threads) (tree : Nat) : Prop := ∃ th ∈ s.threads, th.phase.owes? = some tree

/-- The epoch of the tree is not the one that was seen, or it is about to be raised. -/
def Stirred (s : Threads) (tree seen : Nat) : Prop := s.epochs tree ≠ seen ∨ s.Owed tree

/-- After an update the threads are the others and the new one. -/
theorem mem_put (h : th ∈ (s.put t th').threads) : th ∈ s.threads ∨ th = th' :=
  List.mem_or_eq_of_mem_set h

/-- A thread that goes on leaves the others to raise what they have to. -/
theorem owed_put (hth : s.threads[t]? = some th) (h : s.Owed tree) (th' : Thread) :
    (s.put t th').Owed tree ∨ th.phase.owes? = some tree := by
  obtain ⟨other, hother, howes⟩ := h
  obtain ⟨i, hi⟩ := List.mem_iff_getElem?.1 hother
  by_cases hit : t = i
  · rw [← hit, hth] at hi
    exact .inr (Option.some.inj hi ▸ howes)
  · refine .inl ⟨other, List.mem_iff_getElem?.2 ⟨i, ?_⟩, howes⟩
    rw [put, List.getElem?_set_ne hit, hi]

/-- A thread that owes a tree a signal after an update. -/
theorem owed_put_self (hth : s.threads[t]? = some th) (h : th'.phase.owes? = some tree) :
    (s.put t th').Owed tree :=
  ⟨th', List.mem_set (List.getElem?_eq_some_iff.1 hth).1 th', h⟩

/-! ### What a step can do to others -/

/-- What others rely on while one step is taken: whatever is done to a scope or a tree is made
    known, or is about to be. -/
structure Onward (s s' : Threads) : Prop where
  size : s.store.size ≤ s'.store.size
  tree : ∀ id < s.store.size, s'.store.tree id = s.store.tree id
  epoch : ∀ tree, s.epochs tree ≤ s'.epochs tree
  owed : ∀ tree, s.Owed tree → s.epochs tree < s'.epochs tree ∨ s'.Owed tree
  scope : ∀ id < s.store.size,
    s'.store.scope id = s.store.scope id ∨ s'.Owed (s.store.tree id)
  flag : ∀ tree ∈ s'.store.cancelled, tree ∈ s.store.cancelled ∨ s'.Owed tree

/-- What was known, or was about to be, stays so. -/
theorem Stirred.onward (h : s.Stirred tree seen) (hseen : seen ≤ s.epochs tree)
    (hon : Onward s s') : s'.Stirred tree seen := by
  have hepoch := hon.epoch tree
  rcases h with h | h
  · exact .inl (by omega)
  · exact (hon.owed tree h).imp (fun hlt => by omega) id

/-- A thread goes on by itself. -/
theorem onward_put (hth : s.threads[t]? = some th) (howes : th.phase.owes? = none)
    (th' : Thread) : Onward s (s.put t th') where
  size := Nat.le_refl _
  tree _ _ := rfl
  epoch _ := Nat.le_refl _
  owed tree h := .inr ((owed_put hth h th').resolve_right (by simp [howes]))
  scope _ _ := .inl rfl
  flag _ h := .inl h

/-- A scope is changed. -/
theorem onward_wrote (hth : s.threads[t]? = some th) (howes : th.phase.owes? = none)
    (id : ScopeId) (c : Change) (h : th'.phase.owes? = some (s.store.tree id)) :
    Onward s ((s.perform (.wrote id c)).put t th') where
  size := Nat.le_of_eq (Store.size_apply _ _ _).symm
  tree _ _ := Store.tree_apply _ _ _ _
  epoch _ := Nat.le_refl _
  owed tree h := .inr ((owed_put (s := s.perform (.wrote id c)) hth h th').resolve_right
    (by simp [howes]))
  scope id' _ := by
    by_cases hid : id = id'
    · exact .inr (owed_put_self (s := s.perform (.wrote id c)) hth (hid ▸ h))
    · exact .inl (Store.scope_apply_of_ne _ hid c)
  flag _ h := .inl h

/-- A tree is cancelled. -/
theorem onward_raised (hth : s.threads[t]? = some th) (howes : th.phase.owes? = none)
    (id : ScopeId) (h : th'.phase.owes? = some (s.store.tree id)) :
    Onward s ((s.perform (.raised id)).put t th') where
  size := Nat.le_refl _
  tree _ _ := rfl
  epoch _ := Nat.le_refl _
  owed tree h := .inr ((owed_put (s := s.perform (.raised id)) hth h th').resolve_right
    (by simp [howes]))
  scope _ _ := .inl rfl
  flag tree htree := by
    rcases List.mem_cons.1 htree with rfl | htree
    · exact .inr (owed_put_self (s := s.perform (.raised id)) hth h)
    · exact .inl htree

/-- Waking a thread does not pay what it owes. -/
theorem owes?_rouse (tree : Nat) (p : Phase) : (p.rouse tree).owes? = p.owes? := by
  cases p with
  | asleep w seen =>
    rw [Phase.rouse]
    split <;> rfl
  | _ => rfl

/-- An epoch is raised, and those who sleep in the tree are woken. -/
theorem onward_bumped (hth : s.threads[t]? = some th) (howes : th.phase.owes? = some tree)
    (th' : Thread) : Onward s ((s.perform (.bumped tree)).put t th') where
  size := Nat.le_refl _
  tree _ _ := rfl
  epoch other := by
    show s.epochs other ≤ if other = tree then s.epochs tree + 1 else s.epochs other
    split
    · rename_i h
      rw [h]
      exact Nat.le_succ _
    · exact Nat.le_refl _
  owed other h := by
    by_cases hother : other = tree
    · left
      show s.epochs other < if other = tree then s.epochs tree + 1 else s.epochs other
      rw [if_pos hother, hother]
      exact Nat.lt_succ_self _
    · -- Whoever has to raise another epoch does not sleep.
      obtain ⟨th₁, hth₁, howes₁⟩ := h
      have hroused : (s.perform (.bumped tree)).Owed other :=
        ⟨_, List.mem_map.2 ⟨th₁, hth₁, rfl⟩, (owes?_rouse tree th₁.phase).trans howes₁⟩
      have hself : (s.perform (.bumped tree)).threads[t]? =
          some { th with phase := th.phase.rouse tree } := by
        show (s.threads.map _)[t]? = _
        rw [List.getElem?_map, hth, Option.map_some]
      refine .inr ((owed_put hself hroused th').resolve_right fun htree => hother ?_)
      rw [owes?_rouse, howes] at htree
      exact (Option.some.inj htree).symm
  scope _ _ := .inl rfl
  flag _ h := .inl h

/-- The clock goes on and nothing else changes. -/
theorem onward_tick (s : Threads) : Onward s { s with now := s.now + 1 } where
  size := Nat.le_refl _
  tree _ _ := rfl
  epoch _ := Nat.le_refl _
  owed _ h := .inr h
  scope _ _ := .inl rfl
  flag _ h := .inl h

/-- A scope is opened, in a new tree or in one that is there. -/
theorem onward_push (s : Threads) (cell : Store.Cell) (trees : Nat) :
    Onward s { s with
      store := { s.store with cells := s.store.cells.push cell, trees := trees } } where
  size := by simp [Store.size]
  tree _ hid := congrArg Store.Cell.tree (Store.getD_push hid cell)
  epoch _ := Nat.le_refl _
  owed _ h := .inr h
  scope _ hid := .inl (congrArg Store.Cell.scope (Store.getD_push hid cell))
  flag _ h := .inl h

/-! ### What waiting threads rely on -/

/-- The scopes of a wait are there and in its tree. -/
def Placed (s : Threads) (w : Wait) : Prop :=
  ∀ id ∈ w.stack.scopes, id < s.store.size ∧ s.store.tree id = w.tree

/-- Whatever has become of what a waiting thread has seen, the epoch has moved or will be moved. -/
structure Watching (s : Threads) (v : View) : Prop where
  seen : v.seen ≤ s.epochs v.wait.tree
  flag : v.checked = true → v.wait.tree ∈ s.store.cancelled → s.Stirred v.wait.tree v.seen
  scopes : ∀ id ∈ v.passed, id ∈ v.wait.stack.scopes ∧
    (((s.store.scope id).lookup v.wait.token).isSome → s.Stirred v.wait.tree v.seen)
  still : v.still = true → s.epochs v.wait.tree = v.seen

/-- What holds of a thread in a phase. -/
structure Fit (s : Threads) (p : Phase) : Prop where
  placed : ∀ w ∈ p.wait?, s.Placed w
  watching : ∀ v ∈ p.view?, s.Watching v

/-- Scopes and epochs only grow, so a wait stays in its place. -/
theorem Placed.onward {w : Wait} (h : s.Placed w) (hon : Onward s s') : s'.Placed w :=
  fun id hid => ⟨Nat.lt_of_lt_of_le (h id hid).1 hon.size,
    (hon.tree id (h id hid).1).trans (h id hid).2⟩

/-- What a thread has seen stays worth as much, if its tree is still. -/
theorem Watching.onward {v : View} (h : s.Watching v) (hplaced : s.Placed v.wait)
    (hon : Onward s s') (hstill : v.still = true → s'.epochs v.wait.tree = s.epochs v.wait.tree) :
    s'.Watching v where
  seen := Nat.le_trans h.seen (hon.epoch _)
  flag hchecked hflag := by
    rcases hon.flag _ hflag with hflag | howed
    · exact (h.flag hchecked hflag).onward h.seen hon
    · exact .inr howed
  scopes id hid := by
    obtain ⟨hmem, hlookup⟩ := h.scopes id hid
    obtain ⟨hsize, htree⟩ := hplaced id hmem
    refine ⟨hmem, fun hsome => ?_⟩
    rcases hon.scope id hsize with hscope | howed
    · rw [hscope] at hsome
      exact (hlookup hsome).onward h.seen hon
    · exact .inr (htree ▸ howed)
  still hv := (hstill hv).trans (h.still hv)

/-- A thread that has seen something waits. -/
theorem wait?_of_view? {v : View} (h : p.view? = some v) : p.wait? = some v.wait := by
  cases p <;> cases h <;> rfl

/-- A phase stays fit while others move on. -/
theorem Fit.onward (h : s.Fit p) (hon : Onward s s')
    (hstill : ∀ v ∈ p.view?, v.still = true → s'.epochs v.wait.tree = s.epochs v.wait.tree) :
    s'.Fit p where
  placed w hw := (h.placed w hw).onward hon
  watching v hv := (h.watching v hv).onward (h.placed _ (wait?_of_view? hv)) hon (hstill v hv)

/-- A phase in which the thread relies on nothing. -/
theorem Fit.of_none (hwait : p.wait? = none) : s.Fit p where
  placed w hw := by rw [hwait] at hw; cases hw
  watching v hv := by
    have hw := wait?_of_view? hv
    rw [hwait] at hw
    cases hw

/-- A phase in which it relies on the same as before. -/
theorem Fit.congr (h : s.Fit p) (hwait : p'.wait? = p.wait?) (hview : p'.view? = p.view?) :
    s.Fit p' :=
  ⟨hwait ▸ h.placed, hview ▸ h.watching⟩

/-- Before a thread has looked at anything, it relies on the epoch alone. -/
theorem watching_fresh (s : Threads) (w : Wait) :
    s.Watching ⟨w, s.epochs w.tree, false, [], false⟩ where
  seen := Nat.le_refl _
  flag h := absurd h Bool.false_ne_true
  scopes _ h := absurd h List.not_mem_nil
  still h := absurd h Bool.false_ne_true

/-- It starts over with nothing seen. -/
theorem Fit.restart {w : Wait} (h : s.Fit p) (hwait : p.wait? = some w) : s.Fit (.reads w) where
  placed w' hw' := h.placed w' (hwait.trans hw')
  watching v hv := by cases hv

/-- A thread that is awake does not rely on the epoch to stay. -/
theorem Fit.wake {w : Wait} (h : s.Fit (.asleep w seen)) : s.Fit (.rests w seen) where
  placed := h.placed
  watching v hv := by
    have hw := h.watching _ rfl
    obtain rfl := Option.some.inj hv
    exact ⟨hw.seen, hw.flag, hw.scopes, fun hstill => absurd hstill Bool.false_ne_true⟩

/-- A thread that finds that the tree is not cancelled. -/
theorem Fit.checked {w : Wait} (h : s.Fit (.checks w seen))
    (hset : ¬ w.stack.isCancelled s.store) : s.Fit (.enters w seen) := by
  have hw := h.watching _ rfl
  refine ⟨h.placed, fun v hv => ?_⟩
  obtain rfl := Option.some.inj hv
  refine ⟨hw.seen, fun _ hflag => absurd ?_ hset, hw.scopes, hw.still⟩
  rw [Stack.isCancelled, Store.isCancelled, List.contains_iff_mem,
    (h.placed w rfl _ List.mem_cons_self).2]
  exact hflag

/-- A thread that looks at one more scope in vain: this scope does not know the token now. -/
theorem Fit.missed {w : Wait} {k : Nat} {id : ScopeId} (h : s.Fit (.looks w seen k))
    (hid : w.stack.scopes[k]? = some id) (hmiss : (s.store.scope id).lookup w.token = none) :
    s.Fit (.looks w seen (k + 1)) := by
  have hw := h.watching _ rfl
  refine ⟨h.placed, fun v hv => ?_⟩
  obtain rfl := Option.some.inj hv
  refine ⟨hw.seen, hw.flag, fun id' hid' => ?_, hw.still⟩
  rw [List.take_add_one, hid, List.mem_append] at hid'
  rcases hid' with hid' | hid'
  · exact hw.scopes id' hid'
  · obtain rfl := List.mem_singleton.1 hid'
    exact ⟨List.mem_of_getElem? hid, fun hsome => by simp [hmiss] at hsome⟩

/-- A thread that has looked at all scopes. -/
theorem Fit.left {w : Wait} {k : Nat} (h : s.Fit (.looks w seen k))
    (hend : w.stack.scopes[k]? = none) : s.Fit (.misses w seen) := by
  have hall : w.stack.scopes.take k = w.stack.scopes :=
    List.take_of_length_le (List.getElem?_eq_none_iff.1 hend)
  exact h.congr rfl (by rw [Phase.view?, Phase.view?, hall])

/-- A thread that finds the epoch where it was, under the lock that it sleeps with. -/
theorem Fit.settled {w : Wait} (h : s.Fit (.rests w seen)) (hepoch : s.epochs w.tree = seen) :
    s.Fit (.settles w seen) := by
  have hw := h.watching _ rfl
  refine ⟨h.placed, fun v hv => ?_⟩
  obtain rfl := Option.some.inj hv
  exact ⟨hw.seen, hw.flag, hw.scopes, fun _ => hepoch⟩

/-- **One step of a waiting thread.** What it relies on after the step holds when it takes it. -/
theorem fit_next (h : s.Fit p) (hnext : p.next? s = some (move, p')) : s.Fit p' := by
  cases p with
  | idle | asleep => cases hnext
  | reads w =>
    rw [Phase.next?, Option.ite_none_left_eq_some] at hnext
    obtain ⟨-, rfl⟩ := Prod.mk.inj (Option.some.inj hnext.2)
    -- The epoch was read just now, so nothing can have been missed.
    refine ⟨h.placed, fun v hv => ?_⟩
    obtain rfl := Option.some.inj hv
    exact watching_fresh s w
  | checks w seen =>
    obtain ⟨-, rfl⟩ := Prod.mk.inj (Option.some.inj hnext)
    split
    · exact .of_none rfl
    · rename_i hset
      exact h.checked hset
  | enters w seen =>
    rw [Phase.next?, Option.ite_none_left_eq_some] at hnext
    obtain ⟨-, rfl⟩ := Prod.mk.inj (Option.some.inj hnext.2)
    exact h.congr rfl rfl
  | looks w seen k =>
    rw [Phase.next?] at hnext
    split at hnext
    · rename_i hend
      obtain ⟨-, rfl⟩ := Prod.mk.inj (Option.some.inj hnext)
      exact h.left hend
    · rename_i id hid
      split at hnext <;> obtain ⟨-, rfl⟩ := Prod.mk.inj (Option.some.inj hnext)
      · exact .of_none rfl
      · rename_i hmiss
        exact h.missed hid hmiss
  | misses w seen =>
    obtain ⟨-, rfl⟩ := Prod.mk.inj (Option.some.inj hnext)
    split
    · exact .of_none rfl
    · exact h.congr rfl rfl
  -- It goes to sleep only if the epoch is still the one that was read.
  | rests w seen =>
    rw [Phase.next?, Option.ite_none_left_eq_some] at hnext
    obtain ⟨-, rfl⟩ := Prod.mk.inj (Option.some.inj hnext.2)
    split
    · rename_i hepoch
      exact h.settled hepoch
    · exact h.restart rfl
  | settles w seen | lies w seen =>
    obtain ⟨-, rfl⟩ := Prod.mk.inj (Option.some.inj hnext)
    split
    · exact h.restart rfl
    · exact h.congr rfl rfl
  -- A thread that has an answer relies on nothing.
  | finds w v | answers w answer | raises id =>
    obtain ⟨-, rfl⟩ := Prod.mk.inj (Option.some.inj hnext)
    exact .of_none rfl
  | gathers tree todo | bumps gate tree todo =>
    rw [Phase.next?, Option.ite_none_left_eq_some] at hnext
    obtain ⟨-, rfl⟩ := Prod.mk.inj (Option.some.inj hnext.2)
    exact .of_none rfl
  | writes gate todo =>
    cases todo <;> obtain ⟨-, rfl⟩ := Prod.mk.inj (Option.some.inj hnext) <;> exact .of_none rfl

/-! ### What a thread did before it answered -/

/-- The first `k` scopes of a stack were looked at in vain, the innermost first. -/
def vain (w : Wait) (k : Nat) : List Move :=
  ((w.stack.scopes.take k).map fun id => Move.looked id none).reverse

/-- An answer follows directly from what the thread has done before, the latest first. -/
inductive Justified (w : Wait) : Except WaitError Value → List Move → Prop
  /-- A value is found in one pass over the scopes, in the first of them that has it. -/
  | found {v : Value} {k : Nat} {id : ScopeId} {rest : List Move} : w.stack.scopes[k]? = some id →
      Justified w (.ok v)
        (.leftRead :: .looked id (some v) :: (vain w k ++ .enteredRead :: rest))
  | cancelled {rest : List Move} :
      Justified w (.error (.cancelled w.token)) (.checkedFlag true :: rest)
  /-- A wait times out right after one pass in which no scope knew the token and a look at the clock
      that showed the deadline or more. -/
  | timedOut {now due : Nat} {rest : List Move} : w.deadline = some due → due ≤ now →
      Justified w (.error (.timedOut w.token w.limit))
        (.readClock now :: .leftRead :: (vain w w.stack.depth ++ .enteredRead :: rest))

/-- What a thread in a phase has done last. -/
def Tells : Phase → List Move → Prop
  | .looks w _ k, log => ∃ rest, log = vain w k ++ .enteredRead :: rest
  | .finds w v, log => ∃ k id rest, w.stack.scopes[k]? = some id ∧
      log = .looked id (some v) :: (vain w k ++ .enteredRead :: rest)
  | .misses w _, log => ∃ rest, log = .leftRead :: (vain w w.stack.depth ++ .enteredRead :: rest)
  | .answers w answer, log => Justified w answer log
  | _, _ => True

/-- All answers of a thread are justified by what it did before. -/
structure Told (th : Thread) : Prop where
  tells : Tells th.phase th.log
  answers : ∀ newer w answer older, th.log = newer ++ .answered w answer :: older →
    Justified w answer older

/-- One more scope was looked at in vain. -/
theorem vain_succ {w : Wait} {k : Nat} {id : ScopeId} (h : w.stack.scopes[k]? = some id) :
    vain w (k + 1) = .looked id none :: vain w k := by
  rw [vain, List.take_add_one, h, List.map_append, List.reverse_append]
  rfl

/-- **One step and the story of a thread.** -/
theorem tells_next {log : List Move} (h : Tells p log) (hnext : p.next? s = some (move, p')) :
    Tells p' (move :: log) := by
  cases p with
  | idle | asleep => cases hnext
  | reads w =>
    rw [Phase.next?, Option.ite_none_left_eq_some] at hnext
    obtain ⟨-, rfl⟩ := Prod.mk.inj (Option.some.inj hnext.2)
    trivial
  | checks w seen =>
    obtain ⟨rfl, rfl⟩ := Prod.mk.inj (Option.some.inj hnext)
    split
    · rename_i hset
      rw [hset]
      exact .cancelled
    · trivial
  | enters w seen =>
    rw [Phase.next?, Option.ite_none_left_eq_some] at hnext
    obtain ⟨rfl, rfl⟩ := Prod.mk.inj (Option.some.inj hnext.2)
    exact ⟨log, rfl⟩
  | looks w seen k =>
    obtain ⟨rest, rfl⟩ := h
    rw [Phase.next?] at hnext
    split at hnext
    · rename_i hend
      obtain ⟨rfl, rfl⟩ := Prod.mk.inj (Option.some.inj hnext)
      -- All scopes were looked at, so what was in vain is all of them.
      have hall : vain w k = vain w w.stack.depth := by
        rw [vain, vain, List.take_of_length_le (List.getElem?_eq_none_iff.1 hend), Stack.depth,
          List.take_length]
      exact ⟨rest, by rw [hall]⟩
    · rename_i id hid
      split at hnext
      · obtain ⟨rfl, rfl⟩ := Prod.mk.inj (Option.some.inj hnext)
        -- This scope has a value, and all before it were looked at in vain.
        exact ⟨k, id, rest, hid, rfl⟩
      · obtain ⟨rfl, rfl⟩ := Prod.mk.inj (Option.some.inj hnext)
        exact ⟨rest, by rw [vain_succ hid]; rfl⟩
  | finds w v =>
    obtain ⟨k, id, rest, hid, rfl⟩ := h
    obtain ⟨rfl, rfl⟩ := Prod.mk.inj (Option.some.inj hnext)
    exact .found hid
  | misses w seen =>
    obtain ⟨rest, rfl⟩ := h
    obtain ⟨rfl, rfl⟩ := Prod.mk.inj (Option.some.inj hnext)
    split
    · -- A thread gives up only once its deadline is over.
      rename_i hdue
      rw [Wait.isDue, Option.any_eq_true] at hdue
      obtain ⟨due, hdeadline, hdue⟩ := hdue
      exact .timedOut hdeadline (of_decide_eq_true hdue)
    · trivial
  | rests w seen =>
    rw [Phase.next?, Option.ite_none_left_eq_some] at hnext
    obtain ⟨-, rfl⟩ := Prod.mk.inj (Option.some.inj hnext.2)
    split <;> trivial
  | settles w seen | lies w seen =>
    obtain ⟨-, rfl⟩ := Prod.mk.inj (Option.some.inj hnext)
    split <;> trivial
  | answers w answer | raises id =>
    obtain ⟨-, rfl⟩ := Prod.mk.inj (Option.some.inj hnext)
    trivial
  | gathers tree todo | bumps gate tree todo =>
    rw [Phase.next?, Option.ite_none_left_eq_some] at hnext
    obtain ⟨-, rfl⟩ := Prod.mk.inj (Option.some.inj hnext.2)
    trivial
  | writes gate todo =>
    cases todo <;> obtain ⟨-, rfl⟩ := Prod.mk.inj (Option.some.inj hnext) <;> trivial

/-- Only a thread that has an answer gives one. -/
theorem eq_answers_of_next? {w : Wait} {answer : Except WaitError Value}
    (hnext : p.next? s = some (.answered w answer, p')) : p = .answers w answer := by
  cases p with
  | answers w' answer' =>
    obtain ⟨hmove, -⟩ := Prod.mk.inj (Option.some.inj hnext)
    obtain ⟨rfl, rfl⟩ := Move.answered.inj hmove
    rfl
  | looks w seen k =>
    rw [Phase.next?] at hnext
    split at hnext
    · cases hnext
    · split at hnext <;> cases hnext
  | writes gate todo => cases todo <;> cases hnext
  | reads | enters | rests | gathers | bumps =>
    rw [Phase.next?, Option.ite_none_left_eq_some] at hnext
    cases hnext.2
  | _ => cases hnext

/-- The log of a thread tells its answer, step by step. -/
theorem told_next (h : Told th) (hnext : th.phase.next? s = some (move, p')) :
    Told ⟨p', move :: th.log⟩ where
  tells := tells_next h.tells hnext
  answers newer w answer older hlog := by
    cases newer with
    | nil =>
      obtain ⟨rfl, rfl⟩ := List.cons.inj hlog
      have htells := h.tells
      rw [eq_answers_of_next? hnext] at htells
      exact htells
    | cons move' newer => exact h.answers newer w answer older (List.cons.inj hlog).2

/-! ### Turns -/

/-- A step leaves alone what the threads share, or it makes a change that somebody has to make known
    then, or it makes one known. -/
theorem next?_cases (hnext : p.next? s = some (move, p')) :
    (move.isQuiet = true ∧ p.owes? = none) ∨
      (∃ id c, move = .wrote id c ∧ p.owes? = none ∧ p'.owes? = some (s.store.tree id)) ∨
      (∃ id, move = .raised id ∧ p.owes? = none ∧ p'.owes? = some (s.store.tree id)) ∨
      ∃ tree, move = .bumped tree ∧ p.owes? = some tree ∧ s.isLocked tree = false ∧
        p'.view? = none := by
  cases p with
  | idle | asleep => cases hnext
  | looks w seen k =>
    rw [Phase.next?] at hnext
    split at hnext
    · cases hnext
      exact .inl ⟨rfl, rfl⟩
    · split at hnext <;> cases hnext <;> exact .inl ⟨rfl, rfl⟩
  | writes gate todo =>
    cases todo with
    | nil =>
      cases hnext
      exact .inl ⟨rfl, rfl⟩
    | cons e todo =>
      cases hnext
      exact .inr (.inl ⟨e.1, e.2, rfl, rfl, rfl⟩)
  | raises id =>
    cases hnext
    exact .inr (.inr (.inl ⟨id, rfl, rfl, rfl⟩))
  | bumps gate tree todo =>
    rw [Phase.next?, Option.ite_none_left_eq_some] at hnext
    obtain ⟨hlock, hnext⟩ := hnext
    cases hnext
    exact .inr (.inr (.inr ⟨tree, rfl, rfl, by simpa using hlock, rfl⟩))
  | reads | enters | rests | gathers =>
    rw [Phase.next?, Option.ite_none_left_eq_some] at hnext
    cases hnext.2
    exact .inl ⟨rfl, rfl⟩
  | _ =>
    cases hnext
    exact .inl ⟨rfl, rfl⟩

/-- A step of a thread takes the others onward. -/
theorem onward_advance (hth : s.threads[t]? = some th)
    (hnext : th.phase.next? s = some (move, p')) :
    Onward s ((s.perform move).put t ⟨p', move :: th.log⟩) := by
  rcases next?_cases hnext with ⟨hquiet, howes⟩ | ⟨id, c, rfl, howes, howes'⟩ |
    ⟨id, rfl, howes, howes'⟩ | ⟨tree, rfl, howes, -⟩
  · rw [perform_of_isQuiet hquiet]
    exact onward_put hth howes _
  · exact onward_wrote hth howes id c howes'
  · exact onward_raised hth howes id howes'
  · exact onward_bumped hth howes _

/-- What holds of every thread: it can rely on what it has seen, and its answers are justified. -/
def Sound (s : Threads) : Prop := ∀ th ∈ s.threads, s.Fit th.phase ∧ Told th

/-- A step keeps the threads sound, if what they rely on holds when it is taken and the epochs stay
    that must not move. -/
theorem Sound.of_onward (hon : Onward s s')
    (h : ∀ th ∈ s'.threads, s.Fit th.phase ∧ Told th ∧ ∀ v ∈ th.phase.view?, v.still = true →
      s'.epochs v.wait.tree = s.epochs v.wait.tree) : s'.Sound := fun th hth =>
  ⟨(h th hth).1.onward hon (h th hth).2.2, (h th hth).2.1⟩

/-- An update of one thread by a fit phase keeps all threads sound, if it owed nothing. -/
theorem sound_put (h : s.Sound) (hth : s.threads[t]? = some th) (howes : th.phase.owes? = none)
    (hfit : s.Fit th'.phase) (htold : Told th') : (s.put t th').Sound := by
  refine .of_onward (onward_put hth howes th') fun th₁ hth₁ => ?_
  rcases mem_put hth₁ with hth₁ | rfl
  · exact ⟨(h th₁ hth₁).1, (h th₁ hth₁).2, fun _ _ _ => rfl⟩
  · exact ⟨hfit, htold, fun _ _ _ => rfl⟩

/-- Whose epoch cannot move in spite of a wake-up, has it locked. -/
theorem lock?_of_still {v : View} (hview : (p.rouse tree).view? = some v) (hstill : v.still = true)
    (htree : v.wait.tree = tree) : p.lock? = some tree := by
  cases p with
  | asleep w seen =>
    rw [Phase.rouse] at hview
    split at hview
    · cases hview
      cases hstill
    · rename_i hne
      cases hview
      exact absurd htree hne
  | settles | lies =>
    cases hview
    exact congrArg some htree
  | _ => cases hview <;> cases hstill

/-- A waking thread reads the epoch again, so it is fit. -/
theorem fit_rouse (h : s.Fit p) (tree : Nat) : s.Fit (p.rouse tree) := by
  cases p with
  | asleep w seen =>
    rw [Phase.rouse]
    split
    · exact h.wake
    · exact h
  | _ => exact h

/-- Waking adds nothing to the log. -/
theorem told_rouse (h : Told th) (tree : Nat) : Told { th with phase := th.phase.rouse tree } := by
  obtain ⟨p, log⟩ := th
  refine ⟨?_, h.answers⟩
  cases p with
  | asleep w seen =>
    show Tells (Phase.rouse tree (.asleep w seen)) log
    rw [Phase.rouse]
    split <;> trivial
  | _ => exact h.tells

/-- What other threads rely on is not touched by a step, but for the epoch that is raised: it is not
    locked then, and those who sleep are woken. -/
theorem Sound.perform (h : s.Sound) (hnext : p.next? s = some (move, p'))
    (hth : th ∈ (s.perform move).threads) :
    s.Fit th.phase ∧ Told th ∧ ∀ v ∈ th.phase.view?, v.still = true →
      (s.perform move).epochs v.wait.tree = s.epochs v.wait.tree := by
  rcases next?_cases hnext with ⟨hquiet, -⟩ | ⟨id, c, rfl, -⟩ | ⟨id, rfl, -⟩ |
    ⟨tree, rfl, -, hlock, -⟩
  · rw [perform_of_isQuiet hquiet] at hth ⊢
    exact ⟨(h th hth).1, (h th hth).2, fun _ _ _ => rfl⟩
  · exact ⟨(h th hth).1, (h th hth).2, fun _ _ _ => rfl⟩
  · exact ⟨(h th hth).1, (h th hth).2, fun _ _ _ => rfl⟩
  · obtain ⟨th₀, hth₀, rfl⟩ := List.mem_map.1 hth
    refine ⟨fit_rouse (h th₀ hth₀).1 tree, told_rouse (h th₀ hth₀).2 tree, fun v hv hstill => ?_⟩
    refine if_neg fun htree => ?_
    have hheld : th₀.phase.lock? = some tree := lock?_of_still hv hstill htree
    exact absurd (List.any_eq_false.1 hlock th₀ hth₀) (by simp [hheld])

/-- **One step.** Threads stay sound when one of them takes its next step. -/
theorem sound_advance (h : s.Sound) (t : Nat) : (s.advance t).Sound := by
  rw [advance]
  cases hth : s.threads[t]? with
  | none => exact h
  | some th =>
    obtain ⟨hfit, htold⟩ := h th (List.mem_of_getElem? hth)
    dsimp only
    cases hnext : th.phase.next? s with
    | none => exact h
    | some next =>
      obtain ⟨move, p'⟩ := next
      dsimp only
      refine .of_onward (onward_advance hth hnext) fun th₁ hth₁ => ?_
      rcases mem_put hth₁ with hth₁ | rfl
      · exact h.perform hnext hth₁
      · refine ⟨fit_next hfit hnext, told_next htold hnext, fun v hv _ => ?_⟩
        -- The thread that raises an epoch does not wait itself.
        rcases next?_cases hnext with ⟨hquiet, -⟩ | ⟨id, c, rfl, -⟩ | ⟨id, rfl, -⟩ |
          ⟨tree, rfl, -, -, hview⟩
        · rw [perform_of_isQuiet hquiet]
          rfl
        · rfl
        · rfl
        · cases hview.symm.trans hv

/-- A job begins with nothing seen and nothing done. -/
theorem fit_begin {job : Job} (hbegin : job.begin? s = some p) (log : List Move) :
    s.Fit p ∧ Tells p log := by
  cases job with
  | wait stack token limit =>
    rw [Job.begin?, Option.ite_none_right_eq_some] at hbegin
    obtain ⟨hstack, hp⟩ := hbegin
    obtain rfl := Option.some.inj hp
    refine ⟨⟨fun w hw => ?_, fun v hv => by cases hv⟩, trivial⟩
    obtain rfl := Option.some.inj hw
    exact hstack
  | publish stack values =>
    rw [Job.begin?, Option.ite_none_left_eq_some, Option.ite_none_right_eq_some] at hbegin
    obtain rfl := Option.some.inj hbegin.2.2
    exact ⟨.of_none rfl, trivial⟩
  | change | cancel =>
    obtain rfl := Option.some.inj hbegin
    exact ⟨.of_none rfl, trivial⟩

/-- A thread that begins a job has seen nothing yet. -/
theorem sound_begin (h : s.Sound) (t : Nat) (job : Job) : (s.begin t job).Sound := by
  rw [begin]
  split
  · rename_i log hth
    cases hbegin : job.begin? s with
    | none => exact h
    | some p =>
      obtain ⟨hfit, htells⟩ := fit_begin hbegin log
      exact sound_put h hth rfl hfit ⟨htells, (h _ (List.mem_of_getElem? hth)).2.answers⟩
  · exact h

/-- A thread may wake for no reason. -/
theorem sound_wake (h : s.Sound) (t : Nat) : (s.wake t).Sound := by
  rw [wake]
  split
  · rename_i w seen log hth
    obtain ⟨hfit, htold⟩ := h _ (List.mem_of_getElem? hth)
    exact sound_put h hth rfl hfit.wake ⟨trivial, htold.answers⟩
  · exact h

/-- Every kind of turn keeps threads sound. -/
theorem sound_take (h : s.Sound) (turn : Turn) : (s.take turn).Sound := by
  have hsame : ∀ th ∈ s.threads, s.Fit th.phase ∧ Told th ∧ ∀ v ∈ th.phase.view?,
      v.still = true → s.epochs v.wait.tree = s.epochs v.wait.tree :=
    fun th hth => ⟨(h th hth).1, (h th hth).2, fun _ _ _ => rfl⟩
  cases turn with
  | begin t job => exact sound_begin h t job
  | advance t => exact sound_advance h t
  | wake t => exact sound_wake h t
  | tick => exact .of_onward (onward_tick s) hsame
  | openRoot seed => exact .of_onward (onward_push s _ _) hsame
  | openIn parent => exact .of_onward (onward_push s _ _) hsame

/-- **Runs.** Whatever turns the threads take, they stay sound. -/
theorem sound_run (h : s.Sound) (turns : List Turn) : (s.run turns).Sound := by
  induction turns generalizing s with
  | nil => exact h
  | cons turn rest ih => exact ih (sound_take h turn)

/-- At the start no thread has anything to do. -/
theorem sound_start (store : Store) (horizon count : Nat) : (start store horizon count).Sound := by
  intro th hth
  obtain rfl := (List.mem_replicate.1 hth).2
  exact ⟨.of_none rfl, trivial, fun newer w answer older hlog => by simp at hlog⟩

/-! ### The law of waiting -/

/-- The wait of a thread that has looked in vain, with the epoch that it had read before. -/
def Phase.resting? : Phase → Option (Wait × Nat)
  | misses w seen | rests w seen | settles w seen | lies w seen | asleep w seen => some (w, seen)
  | _ => none

/-- Threads do not sleep through what they wait for. -/
structure NoLostWakeUp (s : Threads) : Prop where
  /-- A thread sleeps only while the epoch is the one that it has read. -/
  fresh : ∀ th ∈ s.threads, ∀ w seen, th.phase = .asleep w seen → s.epochs w.tree = seen
  /-- If a thread that has looked in vain, asleep or not, could find its token now or would find its
      tree cancelled, then the epoch has moved or somebody is about to raise it. -/
  owed : ∀ th ∈ s.threads, ∀ w seen, th.phase.resting? = some (w, seen) →
    (w.stack.lookup s.store w.token).isSome ∨ w.stack.isCancelled s.store →
      s.epochs w.tree ≠ seen ∨ ∃ other ∈ s.threads, other.phase.owes? = some w.tree
  /-- While nobody is about to raise the epoch of a tree, all those who sleep there do so for good
      reason. -/
  settled : ∀ th ∈ s.threads, ∀ w seen, th.phase = .asleep w seen →
    (∀ other ∈ s.threads, other.phase.owes? ≠ some w.tree) →
      w.stack.lookup s.store w.token = none ∧ w.stack.isCancelled s.store = false
  /-- Every answer follows directly from what the thread has done before. -/
  answers : ∀ th ∈ s.threads, ∀ newer w answer older,
    th.log = newer ++ .answered w answer :: older → Justified w answer older

/-- A thread that has looked in vain has checked its tree and all scopes of its stack. -/
theorem view?_of_resting? {w : Wait} (h : p.resting? = some (w, seen)) :
    ∃ still, p.view? = some ⟨w, seen, true, w.stack.scopes, still⟩ := by
  cases p <;> cases h <;> exact ⟨_, rfl⟩

/-- A resting thread that has missed something: its epoch has moved, or somebody still owes the
    signal. -/
theorem Sound.stirred (h : s.Sound) (hth : th ∈ s.threads) {w : Wait}
    (hresting : th.phase.resting? = some (w, seen))
    (hmissed : (w.stack.lookup s.store w.token).isSome ∨ w.stack.isCancelled s.store) :
    s.Stirred w.tree seen := by
  obtain ⟨still, hview⟩ := view?_of_resting? hresting
  have hfit := (h th hth).1
  have hw := hfit.watching _ hview
  have hplaced := hfit.placed _ (wait?_of_view? hview)
  rcases hmissed with hsome | hcancelled
  · obtain ⟨v, hv⟩ := Option.isSome_iff_exists.1 hsome
    obtain ⟨id, hid, hlookup⟩ := List.exists_of_findSome?_eq_some hv
    exact (hw.scopes id hid).2 (by rw [hlookup]; rfl)
  · rw [Stack.isCancelled, Store.isCancelled, List.contains_iff_mem,
      (hplaced _ List.mem_cons_self).2] at hcancelled
    exact hw.flag rfl hcancelled

/-- In a sound state no wake-up is lost. -/
theorem Sound.noLostWakeUp (h : s.Sound) : s.NoLostWakeUp := by
  have hfresh : ∀ th ∈ s.threads, ∀ w seen, th.phase = .asleep w seen →
      s.epochs w.tree = seen := by
    intro th hth w seen hphase
    have hwatching := (h th hth).1.watching
    rw [hphase] at hwatching
    exact (hwatching _ rfl).still rfl
  constructor
  case fresh => exact hfresh
  case owed => exact fun th hth w seen hresting hmissed => h.stirred hth hresting hmissed
  case settled =>
    intro th hth w seen hphase hquiet
    have hresting : th.phase.resting? = some (w, seen) := by rw [hphase]; rfl
    have hstill : ¬ s.Stirred w.tree seen := by
      rintro (hmoved | ⟨other, hother, howes⟩)
      · exact hmoved (hfresh th hth w seen hphase)
      · exact hquiet other hother howes
    constructor
    · exact Option.not_isSome_iff_eq_none.1 fun hsome =>
        hstill (h.stirred hth hresting (.inl hsome))
    · exact Bool.eq_false_iff.2 fun hcancelled =>
        hstill (h.stirred hth hresting (.inr hcancelled))
  case answers => exact fun th hth => (h th hth).2.answers

/-- **No wake-up is lost.** In whatever order any number of threads take their steps, none of them
    sleeps through what it waits for. -/
theorem noLostWakeUp_run (store : Store) (horizon count : Nat) (turns : List Turn) :
    ((start store horizon count).run turns).NoLostWakeUp :=
  (sound_run (sound_start store horizon count) turns).noLostWakeUp

/-- One thread sleeps until a variable is exported; another one has just exported it.  When that one
    raises the epoch, the first one wakes and finds the value. -/
example :
    let value : Dict String Value := .singleton "x" (.scalar "1")
    let waits := (start (Store.empty.openRoot ∅).2 0 2).run
      (.begin 0 (.wait (.of 0) "$x" 5) :: List.replicate 9 (.advance 0))
    let written := waits.run [.begin 1 (.change 0 (.publish value)), .advance 1]
    let woken := written.run (.advance 1 :: List.replicate 6 (.advance 0))
    (written.threads.map fun th => (th.phase.resting?.isSome, th.phase.owes?)) =
        [(true, none), (false, some 0)] ∧
      ((Stack.of 0).lookup written.store "$x").isSome ∧
      (woken.threads.map fun th => match th.phase with
        | .answers _ (.ok v) => some v
        | _ => none) = [some (.scalar "1"), none] := by
  decide

end Threads

end Runbook
