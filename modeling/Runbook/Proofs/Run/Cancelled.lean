import Runbook.Proofs.Run.CalledOff

namespace Runbook

/-!
# Running a graph — cancelling

A run is cancelled while one of its nodes waits.  The node gives up, and with it every loop around
it, whatever the policy for failed iterations; nothing else happens any more.  If it is cancelled
while an action is called, the action ends as it would, but nothing begins any more (`CalledOff`).

* `Awaited.breaksOff` — a wait ends when the tree is cancelled;
* `Along` — loops that were given up, one within the other;
* `GivenUp` — how a stretch goes on in which the tree is cancelled while a node waits;
* `Heeds`, `Exec.heeds` — how any stretch goes on in which the tree is cancelled, by induction;
* `CutShort`, `WindsDown` — how a run ends that is cancelled in a wait, and how it goes on if it is
  cancelled in a call;
* `HeedsCancel`, `heedsCancel_session` — the law for sessions.
-/

variable {x : Execution} {frame : Frame} {m m₁ m' : Machine} {happened : List Occurrence}
  {planned : List Event}

open Machine (kept_regular)

/-! ### Waits that are cancelled -/

/-- If the tree is cancelled in a wait, then while the node waits for a token, and that is how the
    wait ends. -/
def Machine.BreaksOff {α : Type} (m : Machine) (top : ScopeId) (site : Site)
    (ended : Except WaitError α × Machine) : Prop :=
  ∃ happened, ended.2.course = m.course ++ happened ∧ (.cancelled ∈ happened →
    ∃ earlier token, ended.1 = .error (.cancelled token) ∧ .cancelled ∉ earlier ∧
      happened = earlier ++ [.interrupted top site token, .cancelled])

/-- Publishing does not cancel. -/
theorem not_cancelled_publication (scopes : List ScopeId) (values : Dict String Value) :
    .cancelled ∉ Occurrence.publication scopes values := fun hmem => by
  cases Occurrence.eq_of_mem_publication hmem

namespace Machine.BreaksOff

variable {α β : Type} {m m₁ m' : Machine} {top : ScopeId} {site : Site}

/-- Nothing happens in the wait. -/
theorem quiet {ended : Except WaitError α × Machine} (h : ended.2.course = m.course) :
    m.BreaksOff top site ended :=
  ⟨[], by rw [h, List.append_nil], fun hc => absurd hc List.not_mem_nil⟩

/-- Before the rest of the wait, the tree is not cancelled. -/
theorem after {ended : Except WaitError α × Machine} {before : List Occurrence}
    (hcourse : m₁.course = m.course ++ before) (hbefore : .cancelled ∉ before)
    (h : m₁.BreaksOff top site ended) : m.BreaksOff top site ended := by
  obtain ⟨later, hlater, hcuts⟩ := h
  refine ⟨before ++ later, by rw [hlater, hcourse, List.append_assoc], fun hc => ?_⟩
  obtain ⟨earlier, token, htoken, hearlier, rfl⟩ :=
    hcuts ((List.mem_append.1 hc).resolve_left hbefore)
  refine ⟨before ++ earlier, token, htoken, fun hmem => ?_, (List.append_assoc ..).symm⟩
  exact (List.mem_append.1 hmem).elim hbefore hearlier

/-- `BreaksOff` carries over to another answer that fails wherever the first one is cancelled. -/
theorem imp {a : Except WaitError α} {b : Except WaitError β} (h : m.BreaksOff top site (a, m'))
    (hab : ∀ token, a = .error (.cancelled token) → b = .error (.cancelled token)) :
    m.BreaksOff top site (b, m') := by
  obtain ⟨happened, hcourse, hcuts⟩ := h
  refine ⟨happened, hcourse, fun hc => ?_⟩
  obtain ⟨earlier, token, htoken, hsplit⟩ := hcuts hc
  exact ⟨earlier, token, hab token htoken, hsplit⟩

/-- A wait that ends well was not cancelled. -/
theorem of_ok {v : α} (h : m.BreaksOff top site (.ok v, m')) :
    ∃ happened, m'.course = m.course ++ happened ∧ .cancelled ∉ happened := by
  obtain ⟨happened, hcourse, hcuts⟩ := h
  refine ⟨happened, hcourse, fun hc => ?_⟩
  obtain ⟨_, _, htoken, _⟩ := hcuts hc
  cases htoken

end Machine.BreaksOff

namespace Machine

/-- Once the tree is cancelled, waiting ends. -/
theorem settled?_cancel {m : Machine} (h : m.OneTree) (stack : Stack) (token : String) :
    m.cancel.settled? stack token = some (.error (.cancelled token)) := by
  have hcancelled : stack.isCancelled m.cancel.store = true := by
    show List.contains (m.store.tree m.root :: m.store.cancelled) (m.store.tree stack.top) = true
    rw [h, h]
    simp
  rw [settled?, if_pos hcancelled]

/-- A wait that is settled at once lets nothing happen. -/
theorem awaitDuring_of_settled? {m : Machine} {stack : Stack} {token : String}
    {answer : Except WaitError Value} (h : m.settled? stack token = some answer) (site : Site)
    (limit : Nat) (events : List Event) :
    awaitDuring stack site limit token m events = (answer, { m with schedule := events }) := by
  unfold awaitDuring
  rw [h]

/-- A wait for one token breaks off, by induction on the events to come. -/
theorem breaksOff_awaitDuring (stack : Stack) (site : Site) (limit : Nat) (token : String)
    (events : List Event) : ∀ {m : Machine}, m.Regular planned → m.root < m.store.size →
      m.BreaksOff stack.top site (awaitDuring stack site limit token m events) := by
  induction events with
  | nil =>
    intro m _ _
    unfold awaitDuring
    cases m.settled? stack token <;> exact .quiet rfl
  | cons e rest ih =>
    intro m hregular hroot
    unfold awaitDuring
    cases m.settled? stack token with
    | some answer => exact .quiet rfl
    | none =>
      dsimp only
      by_cases hfits : e.trigger.fits site
      case neg =>
        rw [if_neg hfits]
        exact .quiet rfl
      rw [if_pos hfits]
      have hwait := (kept_regular planned).recordWait hregular stack.top site token
      cases he : e.effect with
      | cancel =>
        -- The wait ends at once.
        rw [perform, awaitDuring_of_settled? (settled?_cancel hwait.oneTree stack token)]
        refine ⟨[.interrupted stack.top site token, .cancelled], ?_, fun _ =>
          ⟨[], token, rfl, List.not_mem_nil, rfl⟩⟩
        simp [course, cancel, recordWait]
      | publish values =>
        -- Values are exported, and the node goes on waiting.
        have hext : Extends (fun _ _ => .ok {}) m _ (m.recordWait stack.top site token) :=
          .recordWait m stack.top site token
        have hpublish : Extends (fun _ _ => .ok {}) (m.recordWait stack.top site token) _
            ((m.recordWait stack.top site token).perform (.publish values)) :=
          .publish (fun s hs => by rwa [List.mem_singleton.1 hs]) values
        have hboth := hext.trans hpublish
        have hbefore : .cancelled ∉ [Occurrence.interrupted stack.top site token] ++
            Occurrence.publication [m.root] values := fun hmem =>
          (List.mem_append.1 hmem).elim (by simp) (not_cancelled_publication _ _)
        exact (ih ((kept_regular planned).perform hwait (.publish values))
          (hboth.root ▸ Nat.lt_of_lt_of_le hroot hboth.size_le)).after hboth.course hbefore

/-- Waits for several tokens break off: the tree is cancelled in the last one that is begun. -/
theorem breaksOff_awaitAll (stack : Stack) (site : Site) (limit : Nat) (tokens : List String) :
    ∀ {m : Machine}, m.Regular planned → m.root < m.store.size →
      m.BreaksOff stack.top site (m.awaitAll stack site limit tokens) := by
  induction tokens with
  | nil => exact fun _ _ => .quiet rfl
  | cons token rest ih =>
    intro m hregular hroot
    have hregular₁ := (kept_regular planned).awaitDuring stack site limit token m.schedule hregular
      (List.Subset.refl _)
    obtain ⟨happened, hext, -⟩ := extends_awaitDuring (fun _ _ => .ok {}) stack site limit token
      m.schedule m hroot
    have hroot₁ := hext.root ▸ Nat.lt_of_lt_of_le hroot hext.size_le
    have hfirst := breaksOff_awaitDuring stack site limit token m.schedule hregular hroot
    unfold awaitAll await
    generalize awaitDuring stack site limit token m m.schedule = waited at *
    obtain ⟨answer, m₁⟩ := waited
    cases answer with
    | error e => exact hfirst.imp fun _ htoken => congrArg _ (Except.error.inj htoken)
    | ok v =>
      obtain ⟨before, hcourse, hbefore⟩ := hfirst.of_ok
      exact ((ih hregular₁ hroot₁).after hcourse hbefore).imp fun _ htoken => by rw [htoken]; rfl

end Machine

/-- **Waiting.** A wait in which the tree is cancelled ends there. -/
theorem Awaited.breaksOff {id : String} {limit : Nat} {tokens : List String}
    {answer : Except WaitError (List Value)}
    (h : Awaited frame id limit tokens m happened answer m') (hregular : m.Regular planned)
    (hroot : m.root < m.store.size) (hc : .cancelled ∈ happened) :
    ∃ earlier token, answer = .error (.cancelled token) ∧ .cancelled ∉ earlier ∧
      happened = earlier ++ [.interrupted frame.top ⟨id, frame.path⟩ token, .cancelled] := by
  obtain ⟨happened', hcourse, hcuts⟩ :=
    Machine.breaksOff_awaitAll frame.stack ⟨id, frame.path⟩ limit tokens hregular hroot
  rw [h.eq] at hcourse hcuts
  obtain rfl : happened = happened' := List.append_cancel_left (h.course.symm.trans hcourse)
  exact hcuts hc

/-- A wait that goes well was not cancelled. -/
theorem Awaited.not_cancelled {c : Change} {id : String} {limit : Nat} {tokens : List String}
    {values : List Value} (hm : m.Ready frame) (hregular : m.Regular planned)
    (h : Awaited frame id limit tokens (m.change frame.top c) happened (.ok values) m') :
    .cancelled ∉ [Occurrence.changed frame.top c] ++ happened := by
  intro hc
  have hchange : Extends (fun _ _ => .ok {}) m _ (m.change frame.top c) := .change hm.top c
  obtain ⟨_, _, htoken, _⟩ := h.breaksOff ((kept_regular planned).change hregular _ _)
    (hchange.ready hm).root ((List.mem_append.1 hc).resolve_left (by simp))
  cases htoken

/-! ### Giving up -/

/-- The change by which a node fails. -/
def Node.fail (e : String) : Node → Change
  | .action id .. => .failAction id e
  | .choice id .. => .failChoice id e
  | .loop id .. => .failLoop id e

/-- Whether a node is done in a scope, and with which error. -/
def Scope.endOf? (s : Scope) : Node → Option (Bool × Option String)
  | .action id .. => (s.actions.get? id).map fun r => (r.done, r.error)
  | .choice id .. => (s.choices.get? id).map fun r => (r.done, r.error)
  | .loop id .. => (s.loops.get? id).map fun r => (r.done, r.error)

/-- How a node has ended depends on its records only. -/
theorem Scope.endOf?_congr {s s' : Scope} {n : Node} (h : s'.recordsOf n.id = s.recordsOf n.id) :
    s'.endOf? n = s.endOf? n := by
  obtain ⟨haction, hrest⟩ := Prod.mk.inj h
  obtain ⟨hchoice, hloop⟩ := Prod.mk.inj hrest
  cases n with
  | action => exact congrArg (Option.map _) haction
  | choice => exact congrArg (Option.map _) hchoice
  | loop => exact congrArg (Option.map _) hloop

/-- A node that fails has ended with the reason on record. -/
theorem Scope.endOf?_fail (s : Scope) (n : Node) (e : String) :
    (s.apply (n.fail e)).endOf? n = some (true, some e) := by
  cases n with
  | action id =>
    have h := congrArg Prod.fst (recordsOf_updateAction s id id fun r =>
      { r with done := true, waiting := false, error := some e })
    rw [if_pos rfl] at h
    exact congrArg (Option.map _) h
  | choice id =>
    have h := congrArg (fun r => r.2.1) (recordsOf_updateChoice s id id fun r =>
      { r with done := true, error := some e })
    rw [if_pos rfl] at h
    exact congrArg (Option.map _) h
  | loop id =>
    have h := congrArg (fun r => r.2.2) (recordsOf_updateLoop s id id fun r =>
      { r.freeze with waiting := false, done := true, error := some e })
    rw [if_pos rfl] at h
    exact congrArg (Option.map _) h

/-- The record of a loop that was given up in an iteration, which is its last one. -/
structure LoopRecord.GivenUp (r : LoopRecord) (last : Int) (i : Iteration) : Prop where
  done : r.done = true
  waiting : r.waiting = false
  error : r.error = some Failure.cancelled.message
  index : r.index = last
  history : r.history.get? last = some i

/-- From one scope to another there are loops that were given up, one within the other, in the
    iterations of a path. -/
inductive Along (store : Store) : ScopeId → List (String × Nat) → ScopeId → Prop
  | here {s : ScopeId} : Along store s [] s
  | inner {s t : ScopeId} {id : String} {index : Nat} {rest : List (String × Nat)} {r : LoopRecord}
      {i : Iteration} :
      (store.scope s).loops.get? id = some r → r.GivenUp index i → s < i.scope →
      Along store i.scope rest t → Along store s ((id, index) :: rest) t

/-- Inner scopes come later in the store. -/
theorem Along.le {store : Store} {s t : ScopeId} {path : List (String × Nat)}
    (h : Along store s path t) : s ≤ t := by
  induction h with
  | here => exact Nat.le_refl _
  | inner _ _ hlt _ ih => exact Nat.le_trans (Nat.le_of_lt hlt) ih

/-- Scopes that are older than the first one do not matter. -/
theorem Along.congr {store store' : Store} {s t : ScopeId} {path : List (String × Nat)}
    (h : Along store s path t)
    (hsame : ∀ u, s ≤ u → ∀ id, (store'.scope u).recordsOf id = (store.scope u).recordsOf id) :
    Along store' s path t := by
  induction h with
  | here => exact .here
  | @inner s _ id _ _ _ _ hr hgiven hlt _ ih =>
    have hloop := congrArg (fun records => records.2.2) (hsame s (Nat.le_refl _) id)
    exact .inner (hloop.trans hr) hgiven hlt
      (ih fun u hu => hsame u (Nat.le_trans (Nat.le_of_lt hlt) hu))

/-- How a stretch goes on in which the tree is cancelled while one of the nodes waits: the node
    gives up together with the loops around it. -/
inductive GivenUp (frame : Frame) (nodes : List Node) (happened : List Occurrence)
    (outcome : Outcome) (m' : Machine) : Prop
  | intro {earlier later : List Occurrence} {s : ScopeId} {site : Site} {token : String}
      {inner : List (String × Nat)} {n : Node}
      (split : happened = earlier ++ .interrupted s site token :: .cancelled :: later)
      (once : .cancelled ∉ earlier)
      (cancelled : outcome = .error .cancelled)
      (idle : ∀ o ∈ later, o.GivesUp)
      (path : site.path = frame.path ++ inner)
      (along : Along m'.store frame.top inner s)
      (mem : n ∈ nodes) (name : n.id = site.node)
      (record : (m'.store.scope s).endOf? n = some (true, some Failure.cancelled.message)) :
      GivenUp frame nodes happened outcome m'

/-- What is on record of a loop that starts an iteration and gives up in it. -/
theorem recordsOf_givenUp (before : Scope) (s : ScopeId) (id : String) (index : Nat)
    (i : Iteration) : ∃ r, ((before.after s (iterationsOf s id index [i] ++
      endingOf s id (.error .cancelled))).recordsOf id).2.2 = some r ∧ r.GivenUp index i := by
  obtain ⟨r, hr, hindex, hcurrent⟩ : ∃ r : LoopRecord,
      ((before.apply (.startIteration id index i.value i.scope)).recordsOf id).2.2 = some r ∧
        r.index = index ∧ r.current = some i :=
    ⟨_, congrArg (fun records => records.2.2)
      ((Scope.recordsOf_updateLoop before id id _).trans (if_pos rfl)), rfl, rfl⟩
  have hfreeze : r.freeze = { r with history := r.history.insert index i } := by
    rw [LoopRecord.freeze, hcurrent, hindex]
  have hafter : before.after s (iterationsOf s id index [i] ++ endingOf s id (.error .cancelled)) =
      (before.apply (.startIteration id index i.value i.scope)).apply
        (.failLoop id Failure.cancelled.recordText) := by
    simp [Scope.after, iterationsOf, endingOf, Occurrence.changesOf]
  have hend := congrArg (fun records => records.2.2) (Scope.recordsOf_updateLoop
    (before.apply (.startIteration id index i.value i.scope)) id id fun r =>
      { r.freeze with
        waiting := false, done := true, error := some Failure.cancelled.recordText })
  rw [if_pos rfl, hr, Option.getD_some, hfreeze] at hend
  rw [hafter]
  exact ⟨_, hend, rfl, rfl, rfl, hindex, Dict.get?_insert_self _ _ _⟩

/-- The record of the loop around an iteration in which the tree is cancelled. -/
theorem Exec.loop_givenUp {id : String} {itemAs : Option String} {body : List Node} {index : Nat}
    {v : Value} {seed : Dict String Value} (hm : m.Ready frame) (hsound : m.Sound x.backend seed)
    (h : Exec x (frame.inner id index m.store.size) (.nodes body)
      (m.openIteration frame id itemAs index v) happened (.error .cancelled) m₁) :
    ∃ r, ((m₁.change frame.top (.failLoop id Failure.cancelled.recordText)).store.scope
      frame.top).loops.get? id = some r ∧ r.GivenUp index ⟨v, m.store.size⟩ := by
  obtain ⟨hopen, hready⟩ := extends_openIteration x.backend hm id itemAs index v
  have hround := (hopen.trans (h.extends hready)).andChange hm
    (.failLoop id Failure.cancelled.recordText)
  have hrecords := hround.recordsOf hsound frame.top id
  -- The record is left by the start of the iteration and the end of the loop.
  have hbody := h.aboutNode_eq_nil hready (Nat.ne_of_lt hm.top)
    (Nat.lt_of_lt_of_le hm.top hopen.size_le) id
  have hend : deeds [.changed frame.top (.failLoop id Failure.cancelled.recordText)] =
      endingOf frame.top id (.error .cancelled) := rfl
  rw [aboutNode_round hbody hend] at hrecords
  obtain ⟨r, hr, hgiven⟩ := recordsOf_givenUp (m.store.scope frame.top) frame.top id index
    ⟨v, m.store.size⟩
  exact ⟨r, (congrArg (fun records => records.2.2) hrecords).trans hr, hgiven⟩

namespace GivenUp

variable {nodes nodes' : List Node} {before : List Occurrence} {outcome : Outcome}

/-- Where a node has given up, the stretch is cancelled. -/
theorem outcome_eq (h : GivenUp frame nodes happened outcome m') : outcome = .error .cancelled := by
  obtain ⟨_, _, houtcome⟩ := h
  exact houtcome

/-- More nodes may be named than the stretch runs. -/
theorem mono (h : GivenUp frame nodes happened outcome m') (hnodes : ∀ n ∈ nodes, n ∈ nodes') :
    GivenUp frame nodes' happened outcome m' := by
  obtain ⟨split, once, houtcome, idle, path, along, mem, name, record⟩ := h
  exact .intro split once houtcome idle path along (hnodes _ mem) name record

/-- A stretch before. -/
theorem prepend (h : GivenUp frame nodes happened outcome m') (hbefore : .cancelled ∉ before) :
    GivenUp frame nodes (before ++ happened) outcome m' := by
  obtain ⟨rfl, once, houtcome, idle, path, along, mem, name, record⟩ := h
  exact .intro (List.append_assoc ..).symm (fun hmem => (List.mem_append.1 hmem).elim hbefore once)
    houtcome idle path along mem name record

/-- A node that was waiting when the tree was cancelled. -/
theorem of_wait {n : Node} {limit : Nat} {tokens : List String} {c : Change} {e : WaitError}
    {waited : List Occurrence} (hm : m.Ready frame) (hregular : m.Regular planned)
    (h : Awaited frame n.id limit tokens (m.change frame.top c) waited (.error e) m₁)
    (hc : .cancelled ∈ [.changed frame.top c] ++ waited ++
      [.changed frame.top (n.fail (Failure.ofWait n.id e).recordText)]) :
    GivenUp frame [n] ([.changed frame.top c] ++ waited ++
        [.changed frame.top (n.fail (Failure.ofWait n.id e).recordText)])
      (.error (.ofWait n.id e))
      (m₁.change frame.top (n.fail (Failure.ofWait n.id e).recordText)) := by
  have hchange : Extends (fun _ _ => .ok {}) m _ (m.change frame.top c) := .change hm.top c
  have hmem : .cancelled ∈ waited := by simpa using hc
  obtain ⟨earlier, token, htoken, hearlier, rfl⟩ :=
    h.breaksOff ((kept_regular planned).change hregular _ _) (hchange.ready hm).root hmem
  obtain rfl : e = .cancelled token := Except.error.inj htoken
  have htop := ((h.extends_after (fun _ _ => .ok {}) hm).ready hm).top
  have hbefore : .cancelled ∉ [Occurrence.changed frame.top c] := by simp
  have hpath : (⟨n.id, frame.path⟩ : Site).path = frame.path ++ [] := (List.append_nil _).symm
  rw [List.append_assoc]
  refine .prepend (.intro (List.append_assoc ..) hearlier rfl (fun o ho => ?_) hpath .here
    (List.mem_singleton_self n) rfl ?_) hbefore
  · rw [List.mem_singleton.1 ho]
    cases n <;> exact ⟨_, _, _, rfl, rfl⟩
  · show ((m₁.store.apply frame.top _).scope frame.top).endOf? n = _
    rw [Store.scope_apply htop, if_pos rfl]
    exact Scope.endOf?_fail _ n _

/-- The loop around an iteration that was given up. -/
theorem round {id : String} {itemAs : Option String} {body : List Node} {index : Nat} {v : Value}
    {seed : Dict String Value} (hm : m.Ready frame) (hsound : m.Sound x.backend seed)
    (hexec : Exec x (frame.inner id index m.store.size) (.nodes body)
      (m.openIteration frame id itemAs index v) happened (.error .cancelled) m₁)
    (h : GivenUp (frame.inner id index m.store.size) nodes happened (.error .cancelled) m₁) :
    GivenUp frame nodes (openingOf frame id itemAs index v m.store.size ++ happened ++
        [.changed frame.top (.failLoop id Failure.cancelled.recordText)]) (.error .cancelled)
      (m₁.change frame.top (.failLoop id Failure.cancelled.recordText)) := by
  obtain ⟨hopen, hready⟩ := extends_openIteration x.backend hm id itemAs index v
  have htop := ((hopen.trans (hexec.extends hready)).ready hm).top
  obtain ⟨r, hr, hgiven⟩ := hexec.loop_givenUp hm hsound
  obtain ⟨rfl, once, -, idle, path, along, mem, name, record⟩ := h
  rename_i earlier later s site token inner n
  have hopening : .cancelled ∉ openingOf frame id itemAs index v m.store.size := by simp [openingOf]
  -- The end of the loop leaves younger scopes alone.
  have hyounger : ∀ u, m.store.size ≤ u → ∀ id',
      ((m₁.change frame.top (.failLoop id Failure.cancelled.recordText)).store.scope u).recordsOf
        id' = (m₁.store.scope u).recordsOf id' := by
    intro u hu id'
    show ((m₁.store.apply frame.top _).scope u).recordsOf id' = _
    rw [Store.scope_apply htop, if_neg (Nat.ne_of_lt (Nat.lt_of_lt_of_le hm.top hu))]
  rw [List.append_assoc]
  refine .prepend (.intro (List.append_assoc ..) once rfl (fun o ho => ?_)
    (path.trans (List.append_assoc ..)) (.inner hr hgiven hm.top (along.congr hyounger)) mem name
    ?_) hopening
  · refine (List.mem_append.1 ho).elim (idle o) fun ho => ?_
    rw [List.mem_singleton.1 ho]
    exact ⟨_, _, _, rfl, rfl⟩
  · rw [Scope.endOf?_congr (hyounger s along.le _)]
    exact record

end GivenUp

/-! ### Executions -/

/-- The nodes of a task. -/
def Task.listing : Task → List Node
  | .nodes list => Node.listing list
  | .node n => n.subtree
  | .rounds _ _ body _ _ | .round _ _ body _ _ => Node.listing body

/-- How a stretch goes on in which the tree is cancelled. -/
def Heeds (planned : List Event) (frame : Frame) (nodes : List Node) (happened : List Occurrence)
    (outcome : Outcome) (m' : Machine) : Prop :=
  GivenUp frame nodes happened outcome m' ∨ CalledOff planned happened

namespace Heeds

variable {nodes nodes' : List Node} {before : List Occurrence} {outcome : Outcome}

/-- `GivenUp.mono` for stretches that were cancelled in a call or in a wait. -/
theorem mono (h : Heeds planned frame nodes happened outcome m')
    (hnodes : ∀ n ∈ nodes, n ∈ nodes') : Heeds planned frame nodes' happened outcome m' :=
  h.imp_left (·.mono hnodes)

/-- A stretch before. -/
theorem prepend (h : Heeds planned frame nodes happened outcome m')
    (hbefore : .cancelled ∉ before) : Heeds planned frame nodes (before ++ happened) outcome m' :=
  h.imp (·.prepend hbefore) (·.prepend hbefore)

/-- A stretch that ends otherwise than cancelled was cancelled in a call, if at all. -/
theorem calledOff (h : Heeds planned frame nodes happened outcome m')
    (hne : outcome ≠ .error .cancelled) : CalledOff planned happened :=
  h.resolve_left fun hgiven => hne hgiven.outcome_eq

end Heeds

/-- Once the tree is cancelled in an execution, it is so for all that follows. -/
theorem Exec.isCancelled_of_mem {task : Task} {outcome : Outcome}
    (h : Exec x frame task m happened outcome m') (hm : m.Ready frame)
    (hregular : m.Regular planned) (hc : .cancelled ∈ happened) (stack : Stack) :
    stack.isCancelled m'.store = true := by
  refine ((kept_regular planned).exec h hregular).isCancelled ?_ stack
  have hcourse : .cancelled ∈ m'.course := (h.extends hm).course ▸ List.mem_append_right _ hc
  exact List.mem_reverse.1 hcourse

/-- An action that is cancelled in a wait gives up; one that is cancelled in its call ends as it
    would. -/
theorem Acts.heeds {id urn : String} {params exports : Dict String String} {outcome : Outcome}
    {seed : Dict String Value} (h : Acts x frame id urn params exports m happened outcome m')
    (hm : m.Ready frame) (hregular : m.Regular planned) (hsound : m.Sound x.backend seed)
    (hc : .cancelled ∈ happened) :
    Heeds planned frame [.action id urn params exports] happened outcome m' := by
  cases h with
  | starved hw => exact .inl (.of_wait (n := .action id urn params exports) hm hregular hw hc)
  | @failed waited heard values _ _ e hw hcall =>
    have hbefore := hw.not_cancelled hm hregular
    have hheard : .cancelled ∈ heard := by
      by_contra hnot
      exact absurd hc (by simpa [hnot] using hbefore)
    exact .inr (hw.calledOff hm hregular hsound hcall hbefore hheard
      (Occurrence.idle_singleton rfl rfl))
  | @done waited heard values _ _ result hw hcall =>
    have hbefore := hw.not_cancelled hm hregular
    have hheard : .cancelled ∈ heard := by
      by_contra hnot
      exact absurd hc (by simpa [hnot, not_cancelled_publication] using hbefore)
    rw [List.append_assoc _ (Occurrence.publication _ _)]
    refine .inr (hw.calledOff hm hregular hsound hcall hbefore hheard fun o ho => ?_)
    exact (List.mem_append.1 ho).elim (Occurrence.idle_publication o)
      (Occurrence.idle_singleton rfl rfl o)

/-- A choice that is decided was not cancelled, since it makes no call. -/
theorem Decides.not_cancelled {id condition : String} {b : Bool}
    (h : Decides x frame id condition m happened (.ok b) m') (hm : m.Ready frame)
    (hregular : m.Regular planned) : .cancelled ∉ happened := by
  cases h with
  | decided _ hw => simpa using hw.not_cancelled hm hregular

/-- A choice that is cancelled in a wait gives up. -/
theorem Decides.givenUp {id condition : String} {f : Failure} (yes no : List Node)
    (h : Decides x frame id condition m happened (.error f) m') (hm : m.Ready frame)
    (hregular : m.Regular planned) (hc : .cancelled ∈ happened) :
    GivenUp frame [.choice id condition yes no] happened (.error f) m' := by
  cases h with
  | malformed => simp at hc
  | starved _ hw => exact .of_wait (n := .choice id condition yes no) hm hregular hw hc
  | undecidable _ hw => exact absurd hc (by simpa using hw.not_cancelled hm hregular)

/-! ### Parts of executions

Each lemma is about one kind of task whose parts are known to heed that the tree is cancelled. -/

section

variable {outcome : Outcome} {seed : Dict String Value}

/-- A node, and the nodes after it. -/
theorem Exec.heeds_cons {n : Node} {rest : List Node} {before after : List Occurrence}
    (hm : m.Ready frame) (hregular : m.Regular planned)
    (h : Exec x frame (.node n) m before (.ok ()) m₁)
    (h' : Exec x frame (.nodes rest) m₁ after outcome m')
    (hfirst : .cancelled ∈ before → Heeds planned frame n.subtree before (.ok ()) m₁)
    (hrest : .cancelled ∈ after → Heeds planned frame (Node.listing rest) after outcome m')
    (hc : .cancelled ∈ before ++ after) :
    Heeds planned frame (Node.listing (n :: rest)) (before ++ after) outcome m' := by
  by_cases hbefore : .cancelled ∈ before
  · -- The first node went well all the same, and the others do not run.
    have hnone : after = [] := h'.eq_nil_of_isCancelled
      (h.isCancelled_of_mem hm hregular hbefore frame.stack)
    rw [hnone, List.append_nil]
    exact .inr ((hfirst hbefore).calledOff nofun)
  · have hafter := hrest ((List.mem_append.1 hc).resolve_left hbefore)
    exact (hafter.mono fun n hn => List.mem_append_right _ hn).prepend hbefore

/-- An iteration, and the iterations after it. -/
theorem Exec.heeds_nextRound {id : String} {itemAs : Option String} {body : List Node}
    {index : Nat} {v : Value} {values : List Value} {before after : List Occurrence}
    (hm : m.Ready frame) (hregular : m.Regular planned)
    (h : Exec x frame (.round id itemAs body index v) m before (.ok ()) m₁)
    (h' : Exec x frame (.rounds id itemAs body (index + 1) values) m₁ after outcome m')
    (hfirst : .cancelled ∈ before → Heeds planned frame (Node.listing body) before (.ok ()) m₁)
    (hrest : .cancelled ∈ after → Heeds planned frame (Node.listing body) after outcome m')
    (hc : .cancelled ∈ before ++ after) :
    Heeds planned frame (Node.listing body) (before ++ after) outcome m' := by
  by_cases hbefore : .cancelled ∈ before
  · -- The iteration went well all the same, and the loop gives up if there is another one.
    have hgives := h'.givesUp_of_isCancelled (h.isCancelled_of_mem hm hregular hbefore frame.stack)
    exact .inr (((hfirst hbefore).calledOff nofun).append fun o ho => (hgives o ho).idle)
  · exact (hrest ((List.mem_append.1 hc).resolve_left hbefore)).prepend hbefore

/-- If the tree is cancelled in an iteration, then in its body. -/
theorem Heeds.of_body {id : String} {itemAs : Option String} {index : Nat} {v : Value}
    {nodes : List Node} {closing : List Occurrence} (hm : m.Ready frame)
    (hregular : m.Regular planned) (hsound : m.Sound x.backend seed)
    (hc : .cancelled ∈ openingOf frame id itemAs index v m.store.size ++ happened ++ closing)
    (hclosing : .cancelled ∉ closing)
    (hbody : (m.openIteration frame id itemAs index v).Ready (frame.inner id index m.store.size) →
      (m.openIteration frame id itemAs index v).Regular planned →
      (m.openIteration frame id itemAs index v).Sound x.backend seed → .cancelled ∈ happened →
      Heeds planned (frame.inner id index m.store.size) nodes happened outcome m₁) :
    Heeds planned (frame.inner id index m.store.size) nodes happened outcome m₁ := by
  obtain ⟨hopen, hready⟩ := extends_openIteration x.backend hm id itemAs index v
  have hopening : .cancelled ∉ openingOf frame id itemAs index v m.store.size := by simp [openingOf]
  have hmem := (List.mem_append.1 hc).resolve_right hclosing
  exact hbody hready ((kept_regular planned).openIteration hregular _ _ _ _ _)
    (hopen.sound seed hsound) ((List.mem_append.1 hmem).resolve_left hopening)

/-- An iteration in whose body a call was the last thing that began. -/
theorem CalledOff.round {id : String} {itemAs : Option String} {index : Nat} {v : Value}
    {scope : ScopeId} {closing : List Occurrence} (h : CalledOff planned happened)
    (hclosing : ∀ o ∈ closing, o.Idle) :
    CalledOff planned (openingOf frame id itemAs index v scope ++ happened ++ closing) :=
  (h.prepend (by simp [openingOf])).append hclosing

/-- A loop whose elements are there, and its iterations. -/
theorem Heeds.of_rounds {id elements : String} (itemAs : Option String) {body : List Node}
    {limit : Nat} {values : List Value} {waited : List Occurrence} (hm : m.Ready frame)
    (hregular : m.Regular planned) (hsound : m.Sound x.backend seed)
    (hw : Awaited frame id limit [elements] (m.change frame.top (.startLoop id true)) waited
      (.ok values) m₁)
    (hc : .cancelled ∈ [.changed frame.top (.startLoop id true)] ++ waited ++ happened)
    (hrounds : m₁.Ready frame → m₁.Regular planned → m₁.Sound x.backend seed →
      .cancelled ∈ happened → Heeds planned frame (Node.listing body) happened outcome m') :
    Heeds planned frame (Node.loop id elements itemAs body).subtree
      ([.changed frame.top (.startLoop id true)] ++ waited ++ happened) outcome m' := by
  have hkept := kept_regular planned
  have hext := hw.extends_after x.backend hm
  have hbefore := hw.not_cancelled hm hregular
  have hafter := hrounds (hext.ready hm) (hkept.awaited (hkept.change hregular _ _) hw)
    (hext.sound seed hsound) ((List.mem_append.1 hc).resolve_left hbefore)
  exact (hafter.mono fun n hn => List.mem_cons_of_mem _ hn).prepend hbefore

end

/-- **Cancelling.** When the tree is cancelled, an execution heeds it. -/
theorem Exec.heeds {task : Task} {outcome : Outcome} {seed : Dict String Value}
    (h : Exec x frame task m happened outcome m') (hm : m.Ready frame)
    (hregular : m.Regular planned) (hsound : m.Sound x.backend seed)
    (hc : .cancelled ∈ happened) :
    Heeds planned frame task.listing happened outcome m' := by
  -- By induction on the execution.  If the tree is cancelled in a wait, the part with the wait is
  -- the last one, and loops on the way add to the path; if it is cancelled in a call, the parts
  -- that follow begin nothing.
  have hkept := kept_regular planned
  induction h with
  | nil | stopped | noRounds => exact absurd hc List.not_mem_nil
  | failed _ _ ih =>
    exact (ih hm hregular hsound hc).mono fun n hn => List.mem_append_left _ hn
  | cons _ h h' ih ih' =>
    have hext := h.extends hm
    exact h.heeds_cons hm hregular h' (ih hm hregular hsound)
      (ih' (hext.ready hm) (hkept.exec h hregular) (hext.sound seed hsound)) hc
  | action h => exact h.heeds hm hregular hsound hc
  | @undecided _ _ _ yes no _ _ _ _ h =>
    refine .inl ((h.givenUp yes no hm hregular hc).mono fun n hn => ?_)
    rw [List.mem_singleton.1 hn]
    exact List.mem_cons_self
  | @decided _ _ _ yes no _ _ _ _ _ b _ h h' ih =>
    have hext := h.extends hm
    have hbefore := h.not_cancelled hm hregular
    have hafter := ih (hext.ready hm) (hkept.decides hregular h) (hext.sound seed hsound)
      ((List.mem_append.1 hc).resolve_left hbefore)
    exact (hafter.mono fun n hn => List.mem_cons_of_mem _
      (Node.listing_branch b yes no hn)).prepend hbefore
  | @starved _ id elements itemAs body _ _ _ _ hw =>
    have hgiven := GivenUp.of_wait (n := .loop id elements itemAs body) hm hregular hw hc
    refine .inl (hgiven.mono fun n hn => ?_)
    rw [List.mem_singleton.1 hn]
    exact List.mem_cons_self
  | broken hw _ ih => exact .of_rounds _ hm hregular hsound hw hc ih
  | @finished _ _ _ itemAs _ _ _ _ _ _ _ hw _ ih =>
    -- The loop has finished, so it was in a call that the tree was cancelled.
    have hrounds := Heeds.of_rounds itemAs hm hregular hsound hw
      ((List.mem_append.1 hc).resolve_right (by simp)) ih
    exact .inr ((hrounds.calledOff nofun).append (Occurrence.idle_singleton rfl rfl))
  | lastRound _ ih => exact ih hm hregular hsound hc
  | nextRound h h' ih ih' =>
    have hext := h.extends hm
    exact h.heeds_nextRound hm hregular h' (ih hm hregular hsound)
      (ih' (hext.ready hm) (hkept.exec h hregular) (hext.sound seed hsound)) hc
  | refused => simp at hc
  | completed _ _ ih =>
    have hbody := Heeds.of_body hm hregular hsound hc (by simp) ih
    exact .inr ((hbody.calledOff nofun).round (Occurrence.idle_singleton rfl rfl))
  | passed _ _ hne _ ih =>
    -- Only other failures are passed over.
    have hbody := Heeds.of_body hm hregular hsound hc (by simp) ih
    have hoff := hbody.calledOff fun heq => hne (Except.error.inj heq)
    exact .inr (hoff.round (Occurrence.idle_singleton rfl rfl))
  | halted _ _ hne _ ih =>
    rw [List.append_assoc] at hc ⊢
    have hbody := Heeds.of_body hm hregular hsound hc (by simp) ih
    have hoff := hbody.calledOff fun heq => hne (Except.error.inj heq)
    refine .inr (hoff.round fun o ho => ?_)
    exact (List.mem_append.1 ho).elim (Occurrence.idle_singleton rfl rfl o)
      (Occurrence.idle_singleton rfl rfl o)
  | interrupted _ h ih =>
    rcases Heeds.of_body hm hregular hsound hc (by simp) ih with hgiven | hoff
    · exact .inl (hgiven.round hm hsound h)
    · exact .inr (hoff.round (Occurrence.idle_singleton rfl rfl))

/-! ### The law -/

/-- How a run ends that was cancelled while the node of `site` was waiting in the scope `s`, with
    all that happens later. -/
structure CutShort (x : Execution) (outcome : Outcome) (m' : Machine) (s : ScopeId) (site : Site)
    (later : List Occurrence) : Prop where
  outcome : outcome = .error .cancelled
  noCall : ∀ o ∈ later, o.call? = none
  noStart : ∀ o ∈ later, ∀ t, o.startsIn t = false
  noIteration : ∀ o ∈ later, o.child? = none
  /-- All loops around the node were given up in the iteration that the node was waiting in. -/
  loops : Along m'.store m'.root site.path s
  node : ∃ n ∈ Node.listing x.graph.nodes, n.id = site.node ∧
    (m'.store.scope s).endOf? n = some (true, some "execution cancelled")

/-- How a run goes on that was cancelled while an action was called, with all that happens earlier
    and later: the action has got its answer, and nothing begins any more. -/
structure WindsDown (m : Machine) (earlier later : List Occurrence) : Prop where
  /-- There is an event that cancels the tree in this call.  Since the call began, nothing but such
      events has happened. -/
  call : ∃ before s site call answer heard, ⟨.callAt site, .cancel⟩ ∈ m.schedule ∧
    earlier = before ++ .called s site.node call answer :: heard ∧
    ∀ o ∈ heard, o = .cancelled ∨ ∃ values, o = .published [m.root] values
  noCall : ∀ o ∈ later, o.call? = none
  noStart : ∀ o ∈ later, ∀ t, o.startsIn t = false
  noIteration : ∀ o ∈ later, o.child? = none

/-- A start on a machine does not swallow that the tree of scopes is cancelled. -/
structure HeedsCancel (x : Execution) (m : Machine) : Prop where
  /-- The tree is cancelled while a node waits. -/
  during : ∀ before s site token later,
    (x.start m).2.course =
      m.course ++ (before ++ [.interrupted s site token]) ++ .cancelled :: later →
        CutShort x (x.start m).1 (x.start m).2 s site later
  /-- At no other time is it cancelled, unless by an event that is meant for a call. -/
  otherwise : ∀ earlier later, (x.start m).2.course = m.course ++ earlier ++ .cancelled :: later →
    (∃ before s site token, earlier = before ++ [.interrupted s site token]) ∨
      WindsDown m earlier later
  /-- The tree is cancelled before the start. -/
  before : m.store.isCancelled m.root → x.graph.nodes ≠ [] →
    (x.start m).1 = .error .cancelled ∧ (x.start m).2.calls = m.calls ∧
      (x.start m).2.executions = m.executions ∧ (x.start m).2.store.size = m.store.size ∧
      ∀ s id, ((x.start m).2.store.scope s).recordsOf id = (m.store.scope s).recordsOf id

/-- Since a call has begun no node waits, so the two ways of being cancelled exclude each other. -/
theorem WindsDown.not_interrupted {before later : List Occurrence} {s : ScopeId} {site : Site}
    {token : String} : ¬ WindsDown m (before ++ [.interrupted s site token]) later := by
  intro h
  obtain ⟨before', s', site', call, answer, heard, -, hsplit, hheard⟩ := h.call
  have hlast := congrArg List.getLast? hsplit
  rw [List.getLast?_concat, List.getLast?_append, List.getLast?_cons] at hlast
  cases hend : heard.getLast? with
  | none =>
    rw [hend] at hlast
    cases hlast
  | some o =>
    rw [hend] at hlast
    cases hlast
    -- What is heard during a call are cancellations and publications.
    rcases hheard _ (List.mem_of_getLast? hend) with heq | ⟨values, heq⟩
    · cases heq
    · cases heq

/-- Closing the scope of the whole runbook leaves all records alone. -/
theorem recordsOf_closing {s : ScopeId} (hs : s < m.store.size) (outcome : Outcome) (t : ScopeId)
    (id : String) : ((m.change s outcome.closing).store.scope t).recordsOf id =
      (m.store.scope t).recordsOf id := by
  show ((m.store.apply s outcome.closing).scope t).recordsOf id = _
  rw [Store.scope_apply hs]
  by_cases ht : s = t
  · rw [if_pos ht, Scope.recordsOf_apply_of_node?]
    rw [outcome.closing_of.2]
    simp
  · rw [if_neg ht]

/-- A start does nothing on a cancelled tree but closing the root scope. -/
theorem start_of_isCancelled (hcancelled : m.store.isCancelled m.root)
    (hnodes : x.graph.nodes ≠ []) :
    x.start m = (.error .cancelled, m.change m.root (Outcome.closing (.error .cancelled))) := by
  have hrun : (Run.runNodes x m.outermost x.graph.nodes).on m = (.error .cancelled, m) := by
    cases hlist : x.graph.nodes with
    | nil => exact absurd hlist hnodes
    | cons n rest =>
      have hstopped : Exec x m.outermost (.nodes (n :: rest)) m [] (.error .cancelled) m :=
        .stopped hcancelled
      exact hstopped.on_eq
  let ran := (Run.runNodes x m.outermost x.graph.nodes).on m
  have hstart : x.start m = (ran.1, ran.2.change ran.2.root (Outcome.closing ran.1)) := rfl
  have hran : ran = (.error .cancelled, m) := hrun
  rw [hstart, hran]

/-- The change at the end of a start begins nothing. -/
theorem Outcome.idle_closing (s : ScopeId) (outcome : Outcome) :
    ∀ o ∈ [Occurrence.changed s outcome.closing], o.Idle := by
  rcases outcome with f | ⟨⟩ <;> exact Occurrence.idle_singleton rfl rfl

/-- A start in which the tree is cancelled while a node waits. -/
theorem GivenUp.cutShort {outcome : Outcome} {earlier later : List Occurrence}
    (h : GivenUp m.outermost (Node.listing x.graph.nodes) happened outcome m₁)
    (hroot : m₁.root = m.root) (hlt : m.root < m₁.store.size)
    (hsplit : happened ++ [.changed m.root outcome.closing] = earlier ++ .cancelled :: later) :
    ∃ before s site token, earlier = before ++ [.interrupted s site token] ∧
      CutShort x outcome (m₁.change m.root outcome.closing) s site later := by
  obtain ⟨rfl, once, rfl, idle, path, along, mem, name, record⟩ := h
  rename_i before rest s site token inner n
  have hlater : ∀ o ∈ rest ++ [.changed m.root (Outcome.closing (.error .cancelled))], o.Idle :=
    fun o ho => (List.mem_append.1 ho).elim (fun ho => (idle o ho).idle)
      (Outcome.idle_closing m.root _ o)
  have hbefore : .cancelled ∉ before ++ [.interrupted s site token] := by simpa using once
  -- The tree is cancelled only once meanwhile, so here.
  have hcut : (before ++ [.interrupted s site token]) ++ .cancelled ::
      (rest ++ [.changed m.root (Outcome.closing (.error .cancelled))]) =
        earlier ++ .cancelled :: later := by
    rw [← hsplit, List.append_assoc, List.append_assoc]
    rfl
  obtain ⟨rfl, -, rfl⟩ :=
    (List.append_cons_inj_of_notMem hbefore fun hc => (hlater _ hc).ne_cancelled rfl).1 hcut
  have hclosing := recordsOf_closing hlt (.error .cancelled)
  exact ⟨before, s, site, token, rfl, {
    outcome := rfl
    noCall := fun o ho => (hlater o ho).call?_eq
    noStart := fun o ho => (hlater o ho).startsIn_eq
    noIteration := fun o ho => (hlater o ho).child?_eq
    loops := by
      show Along _ m₁.root _ _
      rw [path, hroot]
      exact along.congr fun t _ => hclosing t
    node := ⟨n, mem, name, (Scope.endOf?_congr (hclosing s n.id)).trans record⟩ }⟩

/-- A start in which the tree is cancelled while an action is called. -/
theorem CalledOff.windsDown {earlier later : List Occurrence} (h : CalledOff m.schedule happened)
    (hzero : m.root = 0) (hsplit : happened = earlier ++ .cancelled :: later) :
    WindsDown m earlier later := by
  obtain ⟨hcall, hlater⟩ := h.split hsplit
  exact ⟨hzero ▸ hcall, fun o ho => (hlater o ho).1, fun o ho => (hlater o ho).2.1,
    fun o ho => (hlater o ho).2.2⟩

/-- A start in which the tree is cancelled, in a wait or in a call. -/
theorem Started.heeds {outcome : Outcome} {seed : Dict String Value}
    {earlier later : List Occurrence} (h : Started x m happened outcome m')
    (hm : m.Standing x.backend seed) (hregular : m.Regular m.schedule)
    (hcourse : m'.course = m.course ++ earlier ++ .cancelled :: later) :
    (∃ before s site token, earlier = before ++ [.interrupted s site token] ∧
      CutShort x outcome m' s site later) ∨ WindsDown m earlier later := by
  have hsplit : happened ++ [.changed m.root outcome.closing] = earlier ++ .cancelled :: later :=
    List.append_cancel_left (h.extends.course.symm.trans
      (hcourse.trans (List.append_assoc ..)))
  obtain ⟨m₁, hexec, rfl⟩ := h.exec
  have hext := hexec.extends h.ready
  have hmem : .cancelled ∈ happened ++ [.changed m.root outcome.closing] := by
    rw [hsplit]
    simp
  rcases hexec.heeds h.ready hregular hm.sound ((List.mem_append.1 hmem).resolve_right (by simp))
    with hgiven | hoff
  · exact .inl (hgiven.cutShort hext.root (Nat.lt_of_lt_of_le hm.root hext.size_le) hsplit)
  · exact .inr ((hoff.append (outcome.idle_closing m.root)).windsDown hm.sound.root hsplit)

/-- **Cancelling.** No start of a session swallows that the tree is cancelled. -/
theorem heedsCancel_session (x : Execution) (seed : Dict String Value) (deeds : List Deed)
    (events : List Event) : HeedsCancel x { x.session seed deeds with schedule := events } := by
  have hstanding := (standing_session x seed deeds).reschedule events
  have hregular := regular_session x seed deeds events
  have hschedule : ({ x.session seed deeds with schedule := events } : Machine).schedule = events :=
    rfl
  generalize ({ x.session seed deeds with schedule := events } : Machine) = m at *
  obtain ⟨happened, hstarted⟩ := started_start x hstanding.root
  have hregular := hschedule ▸ hregular
  constructor
  case during =>
    intro before s site token later hcourse
    rcases hstarted.heeds hstanding hregular hcourse with ⟨_, _, _, _, hsplit, hcut⟩ | hoff
    · obtain ⟨rfl, hlast⟩ := List.append_inj' hsplit rfl
      cases hlast
      exact hcut
    · exact absurd hoff WindsDown.not_interrupted
  case otherwise =>
    intro earlier later hcourse
    exact (hstarted.heeds hstanding hregular hcourse).imp_left
      fun ⟨before, s, site, token, hsplit, _⟩ => ⟨before, s, site, token, hsplit⟩
  case before =>
    intro hcancelled hnodes
    rw [start_of_isCancelled hcancelled hnodes]
    exact ⟨rfl, rfl, rfl, Machine.size_change _ _ _, recordsOf_closing hstanding.root _⟩

/-- An action in a loop that goes on after failed iterations. -/
def patientRun : Execution where
  graph := ⟨[.loop "l" "$h" none [.action "a" "u" (.singleton "p" "$v") ∅]]⟩
  backend _ _ := .ok {}
  options := { onFailure := .proceed }

/-- The loop gets two elements, and the tree is cancelled while the action waits for the first. -/
def impatientEvents : List Event :=
  [⟨.anyWait, .publish (.singleton "h" (.list ["p", "q"]))⟩, ⟨.waitAt ⟨"a", [("l", 1)]⟩, .cancel⟩]

example :
    Outcome.status (patientRun.start (.scheduled ∅ impatientEvents)).1 = .cancelled ∧
      (((patientRun.start (.scheduled ∅ impatientEvents)).2.store.scope 0).loops.get? "l").map
        (fun r => (r.history.entries, r.error)) =
          some ([(1, ⟨.scalar "p", 1⟩)], some "execution cancelled") := by decide +kernel

/-- The tree is cancelled while the action is called for the first element: the action gets its
    answer, and the second iteration is refused. -/
def overdueEvents : List Event :=
  [⟨.anyWait, .publish (.singleton "h" (.list ["p", "q"]))⟩,
    ⟨.anyWait, .publish (.singleton "v" (.scalar "w"))⟩, ⟨.callAt ⟨"a", [("l", 1)]⟩, .cancel⟩]

example :
    Outcome.status (patientRun.start (.scheduled ∅ overdueEvents)).1 = .cancelled ∧
      (((patientRun.start (.scheduled ∅ overdueEvents)).2.store.scope 0).loops.get? "l").map
        (fun r => (r.history.entries, r.error)) =
          some ([(1, ⟨.scalar "p", 1⟩)], some "execution cancelled") ∧
      (((patientRun.start (.scheduled ∅ overdueEvents)).2.store.scope 1).actions.get? "a").map
        (fun r => (r.done, r.error)) = some (true, none) := by decide +kernel

end Runbook
