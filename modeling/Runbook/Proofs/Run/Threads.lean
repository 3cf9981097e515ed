import Runbook.Run.Machine

namespace Runbook

/-!
# Waiting — threads that share scopes

A machine waits in one sequence of steps, into which events enter.  Here the parties run side by
side, and every access to what they share is a step of its own:

* a thread that waits reads the epoch of its tree, checks whether the tree is cancelled, looks at
  the scopes of its stack one by one, checks its deadline and goes to sleep;
* a thread that changes scopes raises the epoch of the tree after every change;
* a thread that cancels a tree raises its epoch after that.

Raising the epoch of a tree wakes all threads that sleep there.  Two locks belong to each tree: one
protects the epoch, the other keeps waiting threads from looking while values are published.

* `Wait`, `Threads.Job` — what a thread can be asked to do;
* `Threads.Phase`, `Threads.Move`, `Threads.Phase.next?` — where a thread is, and its next step;
* `Threads.Turn`, `Threads.take`, `Threads.run` — the steps of all threads in any order;
* `Threads.leads_await`, `Threads.foldl_publish` — a thread that is left alone waits and publishes
  as a machine does.
-/

/-- A lookup that waits. -/
structure Wait where
  stack : Stack
  token : String
  /-- How many milliseconds it waits at most. -/
  limit : Nat
  /-- The moment at which it gives up, if the clock can show it. -/
  deadline : Option Nat
  /-- The tree that the scopes of the stack are in. -/
  tree : Nat
  deriving DecidableEq

/-- Whether the deadline has come. -/
def Wait.isDue (w : Wait) (now : Nat) : Bool := w.deadline.any fun due => decide (due ≤ now)

namespace Threads

/-! ### Single threads -/

/-- What a thread is asked to do. -/
inductive Job where
  | wait (stack : Stack) (token : String) (limit : Nat)
  | change (scope : ScopeId) (c : Change)
  | publish (stack : Stack) (values : Dict String Value)
  | cancel (scope : ScopeId)

/-- Where a thread is.  The number that a waiting thread carries is the epoch that it has seen. -/
inductive Phase where
  | idle
  /-- Before it reads the epoch. -/
  | reads (w : Wait)
  /-- Before it checks whether the tree is cancelled. -/
  | checks (w : Wait) (seen : Nat)
  | enters (w : Wait) (seen : Nat)
  /-- Inside the gate, after `k` scopes that do not know the token. -/
  | looks (w : Wait) (seen k : Nat)
  /-- Inside the gate, with the value that it came for. -/
  | finds (w : Wait) (v : Value)
  /-- After it has looked in vain, before it checks the deadline. -/
  | misses (w : Wait) (seen : Nat)
  | answers (w : Wait) (answer : Except WaitError Value)
  /-- Before it takes the lock of the epoch. -/
  | rests (w : Wait) (seen : Nat)
  /-- Under the lock, before it checks once more whether the tree is cancelled. -/
  | settles (w : Wait) (seen : Nat)
  /-- Under the lock, before it checks the deadline and goes to sleep. -/
  | lies (w : Wait) (seen : Nat)
  | asleep (w : Wait) (seen : Nat)
  /-- Before it enters the gate of a tree to make some changes. -/
  | gathers (tree : Nat) (todo : List (ScopeId × Change))
  /-- With some changes to make, perhaps inside a gate. -/
  | writes (gate : Option Nat) (todo : List (ScopeId × Change))
  /-- A change was made in a tree, the epoch of which is still to be raised. -/
  | bumps (gate : Option Nat) (tree : Nat) (todo : List (ScopeId × Change))
  /-- Before it cancels the tree of a scope. -/
  | raises (scope : ScopeId)

namespace Phase

/-- The tree whose epoch is locked. -/
def lock? : Phase → Option Nat
  | settles w _ | lies w _ => some w.tree
  | _ => none

/-- The tree whose scopes are looked at. -/
def reading? : Phase → Option Nat
  | looks w _ _ | finds w _ => some w.tree
  | _ => none

/-- The tree whose gate is closed to lookups. -/
def writing? : Phase → Option Nat
  | writes gate _ | bumps gate _ _ => gate
  | _ => none

/-- The tree whose epoch the thread still has to raise. -/
def owes? : Phase → Option Nat
  | bumps _ tree _ => some tree
  | _ => none

/-- A thread that sleeps in a tree is woken. -/
def rouse (tree : Nat) : Phase → Phase
  | asleep w seen => if w.tree = tree then rests w seen else asleep w seen
  | p => p

end Phase

/-- One step of a thread. -/
inductive Move where
  | readEpoch (epoch : Nat)
  | checkedFlag (isSet : Bool)
  | enteredRead
  | looked (scope : ScopeId) (found : Option Value)
  | leftRead
  | readClock (now : Nat)
  | answered (w : Wait) (answer : Except WaitError Value)
  | enteredWrite
  | wrote (scope : ScopeId) (c : Change)
  | bumped (tree : Nat)
  /-- All changes are made; if the thread is in a gate, it leaves it. -/
  | finished
  | raised (scope : ScopeId)

/-- A thread and all that it has done, the latest first. -/
structure Thread where
  phase : Phase := .idle
  log : List Move := []

end Threads

/-! ### All threads -/

/-- Threads and what they share. -/
structure Threads where
  store : Store
  /-- How often the epoch of each tree was raised. -/
  epochs : Nat → Nat := fun _ => 0
  now : Nat := 0
  /-- The last moment that the clock can show. -/
  horizon : Nat
  threads : List Threads.Thread

namespace Threads

/-- Some threads, none of which does anything yet. -/
def start (store : Store) (horizon count : Nat) : Threads where
  store := store
  horizon := horizon
  threads := List.replicate count {}

def isLocked (s : Threads) (tree : Nat) : Bool :=
  s.threads.any fun th => th.phase.lock? == some tree

def isRead (s : Threads) (tree : Nat) : Bool :=
  s.threads.any fun th => th.phase.reading? == some tree

def isWritten (s : Threads) (tree : Nat) : Bool :=
  s.threads.any fun th => th.phase.writing? == some tree

/-- The next step of a thread and where it leads, unless the thread has to be given something to do,
    to be woken or to be let in. -/
def Phase.next? (s : Threads) : Phase → Option (Move × Phase)
  | idle | asleep _ _ => none
  | reads w =>
    if s.isLocked w.tree then none
    else some (.readEpoch (s.epochs w.tree), checks w (s.epochs w.tree))
  | checks w seen =>
    let isSet := w.stack.isCancelled s.store
    some (.checkedFlag isSet,
      if isSet then answers w (.error (.cancelled w.token)) else enters w seen)
  | enters w seen => if s.isWritten w.tree then none else some (.enteredRead, looks w seen 0)
  | looks w seen k =>
    match w.stack.scopes[k]? with
    | none => some (.leftRead, misses w seen)
    | some id =>
      match (s.store.scope id).lookup w.token with
      | some v => some (.looked id (some v), finds w v)
      | none => some (.looked id none, looks w seen (k + 1))
  | finds w v => some (.leftRead, answers w (.ok v))
  | misses w seen =>
    some (.readClock s.now,
      if w.isDue s.now then answers w (.error (.timedOut w.token w.limit)) else rests w seen)
  | answers w answer => some (.answered w answer, idle)
  | rests w seen =>
    if s.isLocked w.tree then none
    else some (.readEpoch (s.epochs w.tree),
      if s.epochs w.tree = seen then settles w seen else reads w)
  | settles w seen =>
    let isSet := w.stack.isCancelled s.store
    some (.checkedFlag isSet, if isSet then reads w else lies w seen)
  | lies w seen => some (.readClock s.now, if w.isDue s.now then reads w else asleep w seen)
  | gathers tree todo =>
    if s.isRead tree || s.isWritten tree then none
    else some (.enteredWrite, writes (some tree) todo)
  | writes gate ((id, c) :: todo) => some (.wrote id c, bumps gate (s.store.tree id) todo)
  | writes _ [] => some (.finished, idle)
  | bumps gate tree todo => if s.isLocked tree then none else some (.bumped tree, writes gate todo)
  | raises id => some (.raised id, bumps none (s.store.tree id) [])

def put (s : Threads) (t : Nat) (th : Thread) : Threads :=
  { s with threads := s.threads.set t th }

/-- What a step does to what the threads share. -/
def perform (s : Threads) : Move → Threads
  | .wrote id c => { s with store := s.store.apply id c }
  | .raised id => { s with store := s.store.cancel id }
  | .bumped tree =>
    { s with
      epochs := fun other => if other = tree then s.epochs tree + 1 else s.epochs other
      threads := s.threads.map fun th => { th with phase := th.phase.rouse tree } }
  | _ => s

/-- Whether a step leaves alone what the threads share. -/
def Move.isQuiet : Move → Bool
  | wrote .. | bumped _ | raised _ => false
  | _ => true

/-- A quiet move does nothing to scopes and trees. -/
theorem perform_of_isQuiet {move : Move} (h : move.isQuiet = true) (s : Threads) :
    s.perform move = s := by
  cases move with
  | wrote | bumped | raised => cases h
  | _ => rfl

/-- Whether all scopes of a stack are there and in one tree, as it is with all stacks that are made
    from one scope by pushing children. -/
def IsStack (s : Threads) (stack : Stack) : Prop :=
  ∀ id ∈ stack.scopes, id < s.store.size ∧ s.store.tree id = s.store.tree stack.top

instance (s : Threads) (stack : Stack) : Decidable (s.IsStack stack) :=
  inferInstanceAs (Decidable (∀ _ ∈ _, _))

/-- Where a job begins. -/
def Job.begin? (s : Threads) : Job → Option Phase
  | wait stack token limit =>
    let due := s.now + limit
    if s.IsStack stack then
      some (.reads ⟨stack, token, limit, if due ≤ s.horizon then some due else none,
        s.store.tree stack.top⟩)
    else none
  | change id c => some (.writes none [(id, c)])
  | publish stack values =>
    if values.isEmpty then none
    else if s.IsStack stack then
      some (.gathers (s.store.tree stack.top)
        (stack.scopes.reverse.map fun id => (id, .publish values)))
    else none
  | cancel id => some (.raises id)

/-- What happens next. -/
inductive Turn where
  /-- An idle thread is asked to do something. -/
  | begin (t : Nat) (job : Job)
  /-- A thread takes its next step. -/
  | advance (t : Nat)
  /-- A thread wakes by itself. -/
  | wake (t : Nat)
  | tick
  | openRoot (seed : Dict String Value)
  | openIn (parent : ScopeId)

def begin (s : Threads) (t : Nat) (job : Job) : Threads :=
  match s.threads[t]? with
  | some ⟨.idle, log⟩ =>
    match job.begin? s with
    | some p => s.put t ⟨p, log⟩
    | none => s
  | _ => s

def advance (s : Threads) (t : Nat) : Threads :=
  match s.threads[t]? with
  | none => s
  | some th =>
    match th.phase.next? s with
    | some (move, p) => (s.perform move).put t ⟨p, move :: th.log⟩
    | none => s

def wake (s : Threads) (t : Nat) : Threads :=
  match s.threads[t]? with
  | some ⟨.asleep w seen, log⟩ => s.put t ⟨.rests w seen, log⟩
  | _ => s

/-- Takes a turn.  Nothing happens if it is not possible. -/
def take (s : Threads) : Turn → Threads
  | .begin t job => s.begin t job
  | .advance t => s.advance t
  | .wake t => s.wake t
  | .tick => { s with now := s.now + 1 }
  | .openRoot seed => { s with store := (s.store.openRoot seed).2 }
  | .openIn parent => { s with store := (s.store.openIn parent).2 }

def run (s : Threads) (turns : List Turn) : Threads := turns.foldl take s

/-- Turns that are taken one after the other. -/
theorem run_append (s : Threads) (turns later : List Turn) :
    s.run (turns ++ later) = (s.run turns).run later :=
  List.foldl_append

/-! ### A thread that is left alone -/

variable {s : Threads} {t : Nat} {w : Wait} {p p₁ p₂ : Phase}

/-- Left alone, the thread gets from one phase to another, and all that threads share stays as it
    is. -/
def Leads (s : Threads) (t : Nat) (p p' : Phase) : Prop :=
  ∀ log, ∃ n log', (s.put t ⟨p, log⟩).run (List.replicate n (.advance t)) = s.put t ⟨p', log'⟩

/-- No turn is needed to stay where one is. -/
theorem Leads.refl (s : Threads) (t : Nat) (p : Phase) : s.Leads t p p := fun log => ⟨0, log, rfl⟩

/-- The turns of one way, and then those of the other. -/
theorem Leads.trans (h : s.Leads t p p₁) (h' : s.Leads t p₁ p₂) : s.Leads t p p₂ := by
  intro log
  obtain ⟨n, log₁, hn⟩ := h log
  obtain ⟨m, log₂, hm⟩ := h' log₁
  refine ⟨n + m, log₂, ?_⟩
  rw [← List.replicate_append_replicate, run_append, hn, hm]

/-- Of two updates of a thread the later one counts. -/
theorem put_put (s : Threads) (t : Nat) (th th' : Thread) :
    (s.put t th).put t th' = s.put t th' := by
  simp [put]

/-- One step that concerns the thread alone. -/
theorem leads_of_next? (move : Move) (ht : t < s.threads.length)
    (hnext : ∀ log, p.next? (s.put t ⟨p, log⟩) = some (move, p₁))
    (hmove : move.isQuiet = true) : s.Leads t p p₁ := by
  intro log
  have hphase : (s.put t ⟨p, log⟩).threads[t]? = some ⟨p, log⟩ := List.getElem?_set_self ht
  refine ⟨1, move :: log, ?_⟩
  show (s.put t ⟨p, log⟩).advance t = _
  rw [advance, hphase]
  dsimp only
  rw [hnext]
  dsimp only
  rw [perform_of_isQuiet hmove, put_put]

/-- No other thread holds a lock of the tree that the thread has to take. -/
def Alone (s : Threads) (t tree : Nat) : Prop :=
  ∀ i th, i ≠ t → s.threads[i]? = some th →
    th.phase.lock? ≠ some tree ∧ th.phase.writing? ≠ some tree

/-- After an update of the thread, no thread holds the tree. -/
theorem any_put_eq_false {f : Phase → Option Nat} {tree : Nat} (hp : f p ≠ some tree)
    (hs : ∀ i th, i ≠ t → s.threads[i]? = some th → f th.phase ≠ some tree) (log : List Move) :
    ((s.put t ⟨p, log⟩).threads.any fun th => f th.phase == some tree) = false := by
  rw [List.any_eq_false]
  intro th hth
  obtain ⟨i, hi⟩ := List.mem_iff_getElem?.1 hth
  rw [put, List.getElem?_set] at hi
  rw [beq_iff_eq]
  by_cases hit : t = i
  · rw [if_pos hit] at hi
    split at hi
    · rw [← Option.some.inj hi]
      exact hp
    · cases hi
  · rw [if_neg hit] at hi
    exact hs i th (Ne.symm hit) hi

/-- A thread that is left alone finds the lock free, unless it has it. -/
theorem Alone.isLocked_put {tree : Nat} (h : s.Alone t tree) (hp : p.lock? ≠ some tree)
    (log : List Move) : (s.put t ⟨p, log⟩).isLocked tree = false :=
  any_put_eq_false hp (fun i th hi hth => (h i th hi hth).1) log

/-- A thread that is left alone finds nobody writing, unless it does so itself. -/
theorem Alone.isWritten_put {tree : Nat} (h : s.Alone t tree) (hp : p.writing? ≠ some tree)
    (log : List Move) : (s.put t ⟨p, log⟩).isWritten tree = false :=
  any_put_eq_false hp (fun i th hi hth => (h i th hi hth).2) log

/-- Looking at the scopes from a position on finds what the first of them knows. -/
theorem leads_looks (ht : t < s.threads.length) (w : Wait) (seen : Nat) :
    ∀ (rest : List ScopeId) (k : Nat), w.stack.scopes.drop k = rest →
      s.Leads t (.looks w seen k)
        (match rest.findSome? fun id => (s.store.scope id).lookup w.token with
        | some v => .answers w (.ok v)
        | none => .misses w seen) := by
  intro rest
  induction rest with
  | nil =>
    intro k hk
    have hend : w.stack.scopes[k]? = none := List.getElem?_eq_none (List.drop_eq_nil_iff.1 hk)
    refine leads_of_next? .leftRead ht (fun log => ?_) rfl
    rw [Phase.next?, hend]
    rfl
  | cons id rest ih =>
    intro k hk
    have hid : w.stack.scopes[k]? = some id := by
      rw [← List.head?_drop, hk, List.head?_cons]
    have hrest : w.stack.scopes.drop (k + 1) = rest := by
      rw [← List.tail_drop, hk, List.tail_cons]
    -- The next move looks at this scope.
    have hnext : ∀ log, (Phase.looks w seen k).next? (s.put t ⟨.looks w seen k, log⟩) =
        match (s.store.scope id).lookup w.token with
        | some v => some (.looked id (some v), .finds w v)
        | none => some (.looked id none, .looks w seen (k + 1)) := fun log => by
      rw [Phase.next?, hid]
      rfl
    cases hlookup : (s.store.scope id).lookup w.token with
    | none =>
      simp only [List.findSome?_cons, hlookup] at hnext ⊢
      exact (leads_of_next? _ ht hnext rfl).trans (ih (k + 1) hrest)
    | some v =>
      simp only [List.findSome?_cons, hlookup] at hnext ⊢
      exact (leads_of_next? _ ht hnext rfl).trans (leads_of_next? .leftRead ht (fun _ => rfl) rfl)

/-- After looking in vain, the thread answers that its deadline has come, or goes to sleep. -/
theorem leads_misses (ht : t < s.threads.length) (halone : s.Alone t w.tree)
    (hcancelled : w.stack.isCancelled s.store = false) :
    s.Leads t (.misses w (s.epochs w.tree)) (if w.isDue s.now then
      .answers w (.error (.timedOut w.token w.limit)) else .asleep w (s.epochs w.tree)) := by
  have hmisses : s.Leads t (.misses w (s.epochs w.tree)) (if w.isDue s.now then
      .answers w (.error (.timedOut w.token w.limit)) else .rests w (s.epochs w.tree)) :=
    leads_of_next? (.readClock s.now) ht (fun log => rfl) rfl
  have hrests : s.Leads t (.rests w (s.epochs w.tree)) (.settles w (s.epochs w.tree)) := by
    refine leads_of_next? (.readEpoch (s.epochs w.tree)) ht (fun log => ?_) rfl
    rw [Phase.next?, halone.isLocked_put (by simp [Phase.lock?]), if_neg (by simp)]
    exact congrArg some (Prod.ext rfl (if_pos rfl))
  have hsettles : s.Leads t (.settles w (s.epochs w.tree)) (.lies w (s.epochs w.tree)) := by
    refine leads_of_next? (.checkedFlag false) ht (fun log => ?_) rfl
    rw [Phase.next?, put, hcancelled]
    rfl
  cases hdue : w.isDue s.now with
  | true =>
    rw [hdue] at hmisses
    exact hmisses
  | false =>
    rw [hdue] at hmisses
    refine ((hmisses.trans hrests).trans hsettles).trans ?_
    refine leads_of_next? (.readClock s.now) ht (fun log => ?_) rfl
    rw [Phase.next?, put, hdue]
    rfl

/-- **Waiting alone.** A thread that is left alone waits as a machine does: it answers what settles
    the wait at once, else that the deadline has come, else it goes to sleep. -/
theorem leads_await (ht : t < s.threads.length) (halone : s.Alone t w.tree) {m : Machine}
    (hm : m.store = s.store) :
    s.Leads t (.reads w) (match m.settled? w.stack w.token with
      | some answer => .answers w answer
      | none => if w.isDue s.now then .answers w (.error (.timedOut w.token w.limit))
        else .asleep w (s.epochs w.tree)) := by
  -- Nobody holds the lock of the tree, as no other thread is in it.
  have hreads : s.Leads t (.reads w) (.checks w (s.epochs w.tree)) := by
    refine leads_of_next? (.readEpoch (s.epochs w.tree)) ht (fun log => ?_) rfl
    rw [Phase.next?, halone.isLocked_put (by simp [Phase.lock?])]
    rfl
  have hchecks : s.Leads t (.checks w (s.epochs w.tree)) (if w.stack.isCancelled s.store then
      .answers w (.error (.cancelled w.token)) else .enters w (s.epochs w.tree)) :=
    leads_of_next? (.checkedFlag (w.stack.isCancelled s.store)) ht (fun log => rfl) rfl
  have henters : s.Leads t (.enters w (s.epochs w.tree)) (.looks w (s.epochs w.tree) 0) := by
    refine leads_of_next? .enteredRead ht (fun log => ?_) rfl
    rw [Phase.next?, halone.isWritten_put (by simp [Phase.writing?])]
    rfl
  have hlooks := leads_looks ht w (s.epochs w.tree) w.stack.scopes 0 rfl
  refine hreads.trans ?_
  rw [Machine.settled?, hm]
  cases hcancelled : w.stack.isCancelled s.store with
  | true =>
    rw [hcancelled] at hchecks
    exact hchecks
  | false =>
    rw [hcancelled] at hchecks
    refine (hchecks.trans (henters.trans hlooks)).trans ?_
    rw [if_neg (by simp), Stack.lookup]
    cases w.stack.scopes.findSome? fun id => (s.store.scope id).lookup w.token with
    | some v => exact .refl s t _
    | none => exact leads_misses ht halone hcancelled

/-- The changes that a publish makes one by one are those that it makes at once in a machine. -/
theorem foldl_publish {values : Dict String Value} (hvalues : ¬ values.isEmpty) (stack : Stack)
    (store : Store) :
    (stack.scopes.reverse.map fun id => (id, Change.publish values)).foldl
      (fun store e => store.apply e.1 e.2) store = stack.publish store values := by
  rw [List.foldl_map, List.foldl_reverse, Stack.publish, if_neg hvalues]

end Threads

end Runbook
