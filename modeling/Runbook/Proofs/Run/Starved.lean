import Runbook.Proofs.Graph.Warnings
import Runbook.Proofs.Run.Calls
import Runbook.Proofs.Run.Deadlines
import Runbook.Proofs.Run.Foreseen
import Runbook.Proofs.Run.Places

namespace Runbook

/-!
# Running a graph — nodes that never get what they look up

No scope knows a token that spells no reference, so a node that looks one up waits in vain, whatever
is published meanwhile.  It fails once its limit has elapsed or the run is cancelled; on a clock
that cannot show the limit, only a cancellation ends the waiting.

* `Machine.awaitDuring_ne_ok`, `Awaited.ne_ok` — no wait for such a token brings a value;
* `Awaited.within` — a wait that is in vain ends as the clock allows;
* `Node.Hopeless`, `Exec.starves` — a node that looks one up starts and fails, and nothing else
  happens about it;
* `Node.starved` — the record that it leaves behind;
* `Machine.Starves`, `starves_session` — the same for all starts of a session;
* `Heeded`, `heeded_session` — what a check warns of never gets a value, and everything else may.
-/

variable {x : Execution} {frame : Frame} {m m₁ m' : Machine} {happened : List Occurrence}

/-! ### Waiting in vain -/

namespace Machine

variable {token : String}

/-- A token that is no reference is not looked up, so no wait for it ends with a value. -/
theorem settled?_ne_ok (h : Reference.parse? token = none) (m : Machine) (stack : Stack)
    (v : Value) : m.settled? stack token ≠ some (.ok v) := by
  have hlookup : stack.lookup m.store token = none :=
    List.findSome?_eq_none_iff.2 fun s _ => Scope.lookup_eq_none h _
  rw [settled?, hlookup]
  split <;> simp

/-- A wait for a token that spells no reference brings no value, whatever happens meanwhile. -/
theorem awaitDuring_ne_ok (h : Reference.parse? token = none) (stack : Stack) (site : Site)
    (limit : Nat) (v : Value) (events : List Event) : ∀ m : Machine,
      (awaitDuring stack site limit token m events).1 ≠ .ok v := by
  induction events with
  | nil =>
    intro m
    unfold awaitDuring
    cases hsettled : m.settled? stack token with
    | none => simp
    | some answer =>
      rintro rfl
      exact settled?_ne_ok h m stack v hsettled
  | cons e rest ih =>
    intro m
    unfold awaitDuring
    cases hsettled : m.settled? stack token with
    | none =>
      dsimp only
      -- An event may happen, and then the node goes on waiting.
      split
      · exact ih _
      · simp
    | some answer =>
      rintro rfl
      exact settled?_ne_ok h m stack v hsettled

/-- Waiting for a token that is no reference brings no value, whatever happens meanwhile. -/
theorem await_ne_ok (h : Reference.parse? token = none) (m : Machine) (stack : Stack)
    (site : Site) (limit : Nat) (v : Value) : (m.await stack site limit token).1 ≠ .ok v :=
  awaitDuring_ne_ok h stack site limit v m.schedule m

/-- Neither does a wait for several tokens, if it is one of them. -/
theorem awaitAll_ne_ok (h : Reference.parse? token = none) {stack : Stack} {site : Site}
    {limit : Nat} {tokens : List String} (hmem : token ∈ tokens) :
    ∀ {m m' : Machine} {values : List Value},
      m.awaitAll stack site limit tokens ≠ (.ok values, m') := by
  induction tokens with
  | nil => exact absurd hmem List.not_mem_nil
  | cons first rest ih =>
    intro m m' values heq
    obtain ⟨v, m₁, later, hfirst, hrest, -⟩ := awaitAll_cons_ok heq
    rcases List.mem_cons.1 hmem with rfl | hmem
    · exact await_ne_ok h m stack site limit v (congrArg Prod.fst hfirst)
    · exact ih hmem hrest

end Machine

/-- Tokens that were all found are references. -/
theorem Awaited.ne_ok {id : String} {limit : Nat} {tokens : List String} {values : List Value}
    (h : Awaited frame id limit tokens m happened (.ok values) m') {token : String}
    (hmem : token ∈ tokens) : Reference.parse? token ≠ none := fun hnone =>
  Machine.awaitAll_ne_ok hnone hmem h.eq

namespace Machine

variable {stack : Stack} {site : Site} {limit horizon : Nat} {e : WaitError} {token : String}

/-- Some clock can show all limits that have ended a wait. -/
theorem exists_within (m : Machine) : ∃ horizon, m.Within horizon :=
  ⟨m.elapsed.max?.getD 0, fun _ hlimit => List.le_max?_getD_of_mem hlimit⟩

/-- A wait that fails at once was cancelled. -/
theorem eq_cancelled_of_settled? (h : m.settled? stack token = some (.error e)) :
    e = .cancelled token := by
  rw [settled?] at h
  split at h
  · exact (Except.error.inj (Option.some.inj h)).symm
  · obtain ⟨v, -, heq⟩ := Option.map_eq_some_iff.1 h
    cases heq

/-- A wait fails only as a clock allows that shows all limits which have elapsed by then. -/
theorem within_awaitDuring {events : List Event} : ∀ {m : Machine},
    awaitDuring stack site limit token m events = (.error e, m') → m'.Within horizon →
      e.Within limit horizon := by
  -- A wait that is settled at once with an error was cancelled.
  have hsettled : ∀ {m : Machine} {answer : Except WaitError Value},
      m.settled? stack token = some answer → answer = .error e → e.Within limit horizon := by
    rintro m _ h rfl
    rw [eq_cancelled_of_settled? h]
    exact .cancelled token
  -- A wait that nobody answers has let its whole limit elapse, which the clock must show.
  have helapse : ∀ {m : Machine} {events : List Event},
      ((.error (.timedOut token limit), m.elapse limit events) : Except WaitError Value × Machine) =
        (.error e, m') → m'.Within horizon → e.Within limit horizon := by
    rintro m events h hm
    obtain ⟨herror, rfl⟩ := Prod.mk.inj h
    rw [← Except.error.inj herror]
    exact .timedOut token (hm limit List.mem_cons_self)
  induction events with
  | nil =>
    intro m h
    unfold awaitDuring at h
    cases hanswer : m.settled? stack token with
    | some answer =>
      rw [hanswer] at h
      exact fun _ => hsettled hanswer (Prod.mk.inj h).1
    | none =>
      rw [hanswer] at h
      exact helapse h
  | cons next rest ih =>
    intro m h
    unfold awaitDuring at h
    cases hanswer : m.settled? stack token with
    | some answer =>
      rw [hanswer] at h
      exact fun _ => hsettled hanswer (Prod.mk.inj h).1
    | none =>
      rw [hanswer] at h
      dsimp only at h
      split at h
      · exact ih h
      · exact helapse h

/-- Waits in a row fail within the horizon of the machine that they lead to. -/
theorem within_awaitAll {tokens : List String} : ∀ {m : Machine},
    m.awaitAll stack site limit tokens = (.error e, m') → m'.Within horizon →
      e.Within limit horizon := by
  induction tokens with
  | nil =>
    intro m h
    cases h
  | cons first rest ih =>
    intro m h
    unfold awaitAll at h
    cases hfirst : m.await stack site limit first with
    | mk answer m₁ =>
      rw [hfirst] at h
      cases answer with
      | error e' =>
        cases h
        exact within_awaitDuring hfirst
      | ok v =>
        dsimp only at h
        cases hrest : m₁.awaitAll stack site limit rest with
        | mk answer m₂ =>
          rw [hrest] at h
          cases answer with
          | error e' =>
            cases h
            exact ih hrest
          | ok values => cases h

end Machine

/-- `Machine.within_awaitAll` for a node that waits. -/
theorem Awaited.within {id : String} {limit horizon : Nat} {tokens : List String} {e : WaitError}
    (h : Awaited frame id limit tokens m happened (.error e) m') (hm : m'.Within horizon) :
    e.Within limit horizon :=
  Machine.within_awaitAll h.eq hm

/-! ### Nodes without hope -/

/-- How long a node waits for what it looks up. -/
def Options.limitOf (o : Options) : Node → Nat
  | .action .. => o.actionLimit
  | .choice .. => o.conditionLimit
  | .loop .. => o.loopLimit

/-- The node looks up a token that spells no reference. -/
def Node.Hopeless (n : Node) : Prop := ∃ token ∈ n.tokens, Reference.parse? token = none

/-- What is about a node that starts, waits and fails. -/
theorem Awaited.aboutNode_fail {n : Node} {limit : Nat} {tokens : List String} {e : WaitError}
    {waited : List Occurrence} (hm : m.Ready frame)
    (h : Awaited frame n.id limit tokens (m.change frame.top n.start) waited (.error e) m₁)
    (reason : String) :
    aboutNode frame.top n.id
        ([.changed frame.top n.start] ++ waited ++ [.changed frame.top (n.fail reason)]) =
      [.changed frame.top n.start, .changed frame.top (n.fail reason)] := by
  have hforeign := Occurrence.about?_of_foreign (h.foreign_after hm)
  have hwaited : aboutNode frame.top n.id waited = [] := aboutNode_eq_nil fun o ho => by
    rw [hforeign o ho]
    simp
  rw [aboutNode_append, aboutNode_append, hwaited, List.append_nil, ← aboutNode_append]
  refine aboutNode_eq_self fun o ho => ?_
  simp only [List.mem_append, List.mem_singleton] at ho
  rcases ho with rfl | rfl <;> cases n <;> rfl

/-- A choice looks up the references of its condition. -/
theorem Node.mem_tokens_choice {id condition token : String} {yes no : List Node}
    (h : token ∈ (Node.choice id condition yes no).tokens) :
    ∃ c, Condition.parse condition = .ok c ∧ token ∈ c.comparison.references := by
  rw [Node.tokens] at h
  cases hparse : Comparison.parse condition with
  | error e =>
    rw [hparse] at h
    exact absurd h List.not_mem_nil
  | ok c =>
    rw [hparse] at h
    exact ⟨⟨c, ∅⟩, by rw [Condition.parse, hparse]; rfl, h⟩

/-- A choice decides, or fails to, only with a value for each token. -/
theorem Decides.ofWait_of_hopeless {id condition token : String} {yes no : List Node}
    {answer : Except Failure Bool} (h : Decides x frame id condition m happened answer m')
    (hm : m.Ready frame) (hmem : token ∈ (Node.choice id condition yes no).tokens)
    (htoken : Reference.parse? token = none) :
    ∃ e : WaitError, answer = .error (.ofWait id e) ∧
      (∀ horizon, m'.Within horizon → e.Within x.options.conditionLimit horizon) ∧
      aboutNode frame.top id happened =
        [.changed frame.top (.startChoice id),
          .changed frame.top (.failChoice id (Failure.ofWait id e).recordText)] := by
  obtain ⟨c, hc, hreference⟩ := Node.mem_tokens_choice hmem
  have hgiven : ∀ {c'}, Condition.parse condition = .ok c' → token ∈ c'.comparison.references :=
    fun hparse => Except.ok.inj (hc.symm.trans hparse) ▸ hreference
  cases h with
  | malformed hparse => cases hc.symm.trans hparse
  | starved _ hw =>
    exact ⟨_, rfl, fun _ => hw.within, hw.aboutNode_fail (n := .choice id condition yes no) hm _⟩
  | undecidable hparse hw | decided hparse hw => exact absurd htoken (hw.ne_ok (hgiven hparse))

/-- **Nodes without hope.** Such a node fails because a token does not come, and nothing else is
    told of it. -/
theorem Exec.starves {n : Node} {outcome : Outcome}
    (h : Exec x frame (.node n) m happened outcome m') (hm : m.Ready frame) (hn : n.Hopeless) :
    ∃ e : WaitError, outcome = .error (.ofWait n.id e) ∧
      (∀ horizon, m'.Within horizon → e.Within (x.options.limitOf n) horizon) ∧
      aboutNode frame.top n.id happened =
        [.changed frame.top n.start,
          .changed frame.top (n.fail (Failure.ofWait n.id e).recordText)] := by
  obtain ⟨token, hmem, htoken⟩ := hn
  -- Where the node does more than wait, it has got a value for this token as well.
  cases h with
  | @action _ id urn params exports _ _ _ _ h =>
    cases h with
    | starved hw =>
      exact ⟨_, rfl, fun _ => hw.within,
        hw.aboutNode_fail (n := .action id urn params exports) hm _⟩
    | failed hw | done hw => exact absurd htoken (hw.ne_ok hmem)
  | undecided h =>
    obtain ⟨e, hf, hwithin, habout⟩ := h.ofWait_of_hopeless hm hmem htoken
    exact ⟨e, congrArg _ (Except.error.inj hf), hwithin, habout⟩
  | decided h _ =>
    obtain ⟨e, hanswer, -⟩ := h.ofWait_of_hopeless hm hmem htoken
    cases hanswer
  | @starved _ id elements itemAs body _ _ _ _ hw =>
    exact ⟨_, rfl, fun _ => hw.within, hw.aboutNode_fail (n := .loop id elements itemAs body) hm _⟩
  | broken hw | finished hw => exact absurd htoken (hw.ne_ok hmem)

/-! ### Stories without hope -/

/-- The first thing on record of a node is that it starts. -/
theorem Node.start_starts (n : Node) : n.start.starts := by
  cases n <;> rfl

/-- The start of a node is about the node. -/
theorem Node.node?_start (n : Node) : n.start.node? = some n.id := by
  cases n <;> rfl

/-- A story begins with the start of its node, which is not told of again. -/
theorem Story.head {s : ScopeId} {n : Node} {story : List Occurrence} (h : Story s n story) :
    ∃ rest, story = .changed s n.start :: rest ∧ .changed s n.start ∉ rest := by
  have hloop : ∀ {id : String} {its : List Iteration} {c : Change}, c.starts = false →
      .changed s (.startLoop id true) ∉ iterationsOf s id 1 its ++ [Occurrence.changed s c] := by
    intro id its c hc hmem
    rcases List.mem_append.1 hmem with hmem | hmem
    · obtain ⟨_, _, -, heq⟩ := eq_of_mem_iterationsOf hmem
      cases heq
    · obtain rfl := (Occurrence.changed.inj (List.mem_singleton.1 hmem)).2
      cases hc
  cases h with
  | broken its f => exact ⟨_, rfl, hloop rfl⟩
  | finished its => exact ⟨_, rfl, hloop rfl⟩
  | _ => exact ⟨_, rfl, by simp [Node.start]⟩

/-- A story in which the start of the node is followed by its failure tells of nothing else. -/
theorem Story.eq_of_fail {s : ScopeId} {n : Node} {before after : List Occurrence} {reason : String}
    (h : Story s n
      (before ++ [.changed s n.start, .changed s (n.fail reason)] ++ after)) :
    before = [] ∧ after = [] := by
  obtain ⟨rest, hstory, hrest⟩ := h.head
  have hbefore : before = [] := by
    cases before with
    | nil => rfl
    | cons o before =>
      -- The start would be told of twice.
      rw [List.append_assoc, List.cons_append] at hstory
      obtain rfl := (List.cons.inj hstory).2
      exact absurd (List.mem_append_right _ List.mem_cons_self) hrest
  subst hbefore
  refine ⟨rfl, ?_⟩
  generalize htold : [] ++ [.changed s n.start, .changed s (n.fail reason)] ++ after = story at h
  cases h with
  | broken its f => cases its <;> simp_all [Node.start, Node.fail, iterationsOf]
  | finished its => cases its <;> simp_all [Node.start, Node.fail, iterationsOf]
  | _ => simp_all [Node.start, Node.fail]

/-! ### Records without hope -/

namespace Scope.Holds

variable {s s' : Scope} {id : String} {r : Record}

/-- What a scope holds of a node depends on its records only. -/
theorem congr (h : s.Holds id r) (heq : s'.recordsOf id = s.recordsOf id) : s'.Holds id r := by
  cases h with
  | action hr => exact .action ((congrArg Prod.fst heq).trans hr)
  | choice hr => exact .choice ((congrArg (fun records => records.2.1) heq).trans hr)
  | loop hr => exact .loop ((congrArg (fun records => records.2.2) heq).trans hr)

/-- A node that a scope holds something of has a record. -/
theorem recordsOf_ne (h : s.Holds id r) : s.recordsOf id ≠ (none, none, none) := by
  intro heq
  cases h with
  | action hr => cases (congrArg Prod.fst heq).symm.trans hr
  | choice hr => cases (congrArg (fun records => records.2.1) heq).symm.trans hr
  | loop hr => cases (congrArg (fun records => records.2.2) heq).symm.trans hr

end Scope.Holds

/-- What is on record of a node that did not get what it looks up. -/
def Node.starved (reason : String) : Node → Record
  | .action .. => .action (.uncalled reason)
  | .choice .. => .choice { done := true, error := some reason }
  | .loop .. => .loop { waiting := false, done := true, error := some reason }

section

variable (before : Scope) (s : ScopeId) (n : Node) (reason : String)

/-- What a node leaves on record that starts and fails, where nothing else is on record of it. -/
theorem recordsOf_fail (h : before.recordsOf n.id = (none, none, none) ∨
      ∃ reason', before.recordsOf n.id = (n.starved reason').alone) :
    (before.after s [.changed s n.start, .changed s (n.fail reason)]).recordsOf n.id =
      (n.starved reason).alone := by
  cases n with
  | action id =>
    refine (recordsOf_starved before s id reason).trans ?_
    rcases h with h | ⟨_, h⟩ <;> rw [Node.id] at h <;> rw [h] <;> rfl
  | choice id =>
    refine (recordsOf_undecided before s id reason).trans ?_
    rcases h with h | ⟨_, h⟩ <;> rw [Node.id] at h <;> rw [h] <;> rfl
  | loop id =>
    refine (recordsOf_loop before (.inr ⟨reason, rfl⟩) []).trans ?_
    rcases h with h | ⟨_, h⟩ <;> rw [Node.id] at h <;> rw [h] <;> rfl

/-- Whatever was on record before, its record is one of a node that did not get what it looks up. -/
theorem holds_fail :
    (before.after s [.changed s n.start, .changed s (n.fail reason)]).Holds n.id
      (n.starved reason) := by
  cases n with
  | action id => exact .action (congrArg Prod.fst (recordsOf_starved before s id reason))
  | choice id =>
    exact .choice (congrArg (fun records => records.2.1) (recordsOf_undecided before s id reason))
  | loop id =>
    exact .loop (congrArg (fun records => records.2.2)
      (recordsOf_loop before (.inr ⟨reason, rfl⟩) []))

end

/-! ### Starts -/

/-- In a start, what is told of a node without hope is that it starts and fails. -/
theorem Started.starves {outcome : Outcome} (h : Started x m happened outcome m')
    (hd : ((Node.listing x.graph.nodes).map Node.id).Nodup) {n : Node}
    (hn : n ∈ Node.listing x.graph.nodes) (hopeless : n.Hopeless) (s : ScopeId) :
    aboutNode s n.id (happened ++ [.changed m.root outcome.closing]) = [] ∨
      ∃ e : WaitError, aboutNode s n.id (happened ++ [.changed m.root outcome.closing]) =
        [.changed s n.start, .changed s (n.fail (Failure.ofWait n.id e).recordText)] := by
  by_cases htold : aboutNode s n.id (happened ++ [.changed m.root outcome.closing]) = []
  · exact .inl htold
  refine .inr ?_
  have hunique : ∀ n' ∈ Node.listing x.graph.nodes, n'.id = n.id → n' = n := fun n' hn' hid =>
    List.inj_on_of_nodup_map hd hn' hn hid
  obtain ⟨-, n', hn', hid, hstory⟩ := h.tells hd s n.id htold
  obtain rfl := hunique n' hn' hid
  -- The story begins with the start of the node, and where the node starts it is run.
  have hstart := (mem_aboutNode.1 hstory.start_mem).1
  obtain ⟨m₁, hexec, -⟩ := h.exec
  have hmem : .changed s n'.start ∈ happened := by
    refine (List.mem_append.1 hstart).resolve_right (not_mem_changed n'.start_starts ?_)
    cases outcome <;> rfl
  obtain ⟨rfl, hbegins, hreaches, hready, hnode, rfl, -, -, -, -⟩ :=
    hexec.visits h.ready hmem n'.start_starts
  rename_i frame n₁ _ _ _ _ _ _
  obtain rfl : n₁ = n' := by
    refine hunique n₁ (hreaches.subset (Node.mem_subtree_self n₁)) ?_
    have hnode? := n₁.node?_start
    rw [hbegins, n'.node?_start] at hnode?
    exact (Option.some.inj hnode?).symm
  obtain ⟨e, -, -, habout⟩ := hnode.starves hready hopeless
  rw [List.append_assoc, aboutNode_append, aboutNode_append, habout] at hstory ⊢
  obtain ⟨hbefore, hafter⟩ := hstory.eq_of_fail
  exact ⟨e, by rw [hbefore, hafter, List.nil_append, List.append_nil]⟩

/-! ### Sessions -/

/-- Nothing was told of a node but that it starts and fails, and nothing is on record of it but that
    it did not get what it looks up. -/
structure Machine.Starves (n : Node) (m : Machine) : Prop where
  course : ∀ s, ∀ o ∈ aboutNode s n.id m.course, o = .changed s n.start ∨
    ∃ e : WaitError, o = .changed s (n.fail (Failure.ofWait n.id e).recordText)
  records : ∀ s, (m.store.scope s).recordsOf n.id = (none, none, none) ∨
    ∃ e : WaitError, (m.store.scope s).recordsOf n.id =
      (n.starved (Failure.ofWait n.id e).recordText).alone

variable {seed : Dict String Value}

/-- A stretch that tells at most that a node starts and fails. -/
theorem Machine.Starves.extend {n : Node} (h : m.Starves n) (hm : m.Sound x.backend seed)
    (hext : Extends x.backend m happened m')
    (htold : ∀ s, aboutNode s n.id happened = [] ∨ ∃ e : WaitError, aboutNode s n.id happened =
      [.changed s n.start, .changed s (n.fail (Failure.ofWait n.id e).recordText)]) :
    m'.Starves n := by
  constructor
  case course =>
    intro s o ho
    rw [hext.course, aboutNode_append] at ho
    rcases List.mem_append.1 ho with ho | ho
    · exact h.course s o ho
    · rcases htold s with hnil | ⟨e, hstory⟩
      · rw [hnil] at ho
        cases ho
      · rw [hstory] at ho
        simp only [List.mem_cons, List.not_mem_nil, or_false] at ho
        exact ho.imp_right fun heq => ⟨e, heq⟩
  case records =>
    intro s
    have hrecords := hext.recordsOf hm s n.id
    rcases htold s with hnil | ⟨e, hstory⟩
    · rw [hnil] at hrecords
      have hsame : (m'.store.scope s).recordsOf n.id = (m.store.scope s).recordsOf n.id := hrecords
      rw [hsame]
      exact h.records s
    · rw [hstory, recordsOf_fail _ s n _ ((h.records s).imp_right fun ⟨_, he⟩ => ⟨_, he⟩)]
        at hrecords
      exact .inr ⟨e, hrecords⟩

/-- **Sessions.** A node without hope never gets what it looks up, however often the graph is
    started. -/
theorem starves_session (hd : ((Node.listing x.graph.nodes).map Node.id).Nodup) {n : Node}
    (hn : n ∈ Node.listing x.graph.nodes) (hopeless : n.Hopeless) (seed : Dict String Value)
    (deeds : List Deed) : (x.session seed deeds).Starves n := by
  have hfresh : (Machine.fresh seed).Starves n := by
    refine ⟨fun s o ho => absurd ho List.not_mem_nil, fun s => .inl ?_⟩
    rw [(standing_fresh x.backend seed).sound.told]
    exact recordsOf_initial seed s n.id
  refine session_induction hfresh (fun m hm h d => ?_) deeds
  cases d with
  | start events =>
    have hstanding := hm.reschedule events
    obtain ⟨happened, hstarted⟩ := started_start x hstanding.root
    have hm' : ({ m with schedule := events } : Machine).Starves n := ⟨h.course, h.records⟩
    exact hm'.extend hstanding.sound hstarted.extends (hstarted.starves hd hn hopeless)
  | outside effect =>
    -- What others do is not about a node.
    obtain ⟨happened, hext, hforeign⟩ := Machine.extends_perform x.backend hm.root effect
    refine h.extend hm.sound hext fun s => .inl (aboutNode_eq_nil fun o ho => ?_)
    rw [Occurrence.about?_of_foreign hforeign o ho]
    simp

/-! ### Where a run comes to a node -/

variable {first : Stage}

/-- A node without hope that a run comes to fails, and its record says so. -/
theorem Reaches.starves {n : Node} (h : Reaches x first ⟨frame, .node n, m⟩)
    (hready : first.machine.Ready first.frame) (hsound : first.machine.Sound x.backend seed)
    (hopeless : n.Hopeless) :
    ∃ (e : WaitError) (m' : Machine),
      (Run.runNode x frame n).on m = (.error (.ofWait n.id e), m') ∧
        (∀ horizon, m'.Within horizon → e.Within (x.options.limitOf n) horizon) ∧
        (m'.store.scope frame.top).Holds n.id (n.starved (Failure.ofWait n.id e).recordText) := by
  have hm : m.Ready frame := h.ready hready
  obtain ⟨_, hbefore⟩ := h.extends hready
  obtain ⟨happened, hexec⟩ := runs_runNode x n frame m hm
  obtain ⟨e, hfailed, hwithin, habout⟩ := hexec.starves hm hopeless
  refine ⟨e, _, Prod.ext hfailed rfl, hwithin, ?_⟩
  have hrecords := (hexec.extends hm).recordsOf (hbefore.sound seed hsound) frame.top n.id
  rw [habout] at hrecords
  exact (holds_fail (m.store.scope frame.top) frame.top n _).congr hrecords

/-! ### The law -/

/-- In a session, a node never gets what it looks up. -/
structure NeverGets (x : Execution) (seed : Dict String Value) (deeds : List Deed) (n : Node) :
    Prop where
  /-- Nothing happens about the node but that it starts and that it fails because a token does not
      come, or because the run is cancelled. -/
  course : ∀ s, ∀ o ∈ aboutNode s n.id (x.session seed deeds).course, o = .changed s n.start ∨
    ∃ e : WaitError, o = .changed s (n.fail (Failure.ofWait n.id e).recordText)
  /-- It calls no action. -/
  calls : ∀ s call answer, .called s n.id call answer ∉ (x.session seed deeds).course
  /-- It comes to no decision. -/
  decisions : ∀ s outcome used,
    .changed s (.decideChoice n.id outcome used) ∉ (x.session seed deeds).course
  /-- It starts no iteration. -/
  iterations : ∀ s index v child,
    .changed s (.startIteration n.id index v child) ∉ (x.session seed deeds).course
  /-- All that is on record of it is that it did not get what it looks up. -/
  records : ∀ s r, ((x.session seed deeds).store.scope s).Holds n.id r →
    ∃ reason ∈ unmadeReasons, r = n.starved reason
  /-- In one more start, whatever events are to come: wherever the run comes to it and gets on from
      there, by a clock that shows no more than `horizon`, the node has failed, because the run is
      cancelled or because its limit has elapsed, which the clock can show.  This is on record. -/
  reached : ∀ events frame m horizon,
    Reaches x (x.opening { x.session seed deeds with schedule := events }) ⟨frame, .node n, m⟩ →
      ((Run.runNode x frame n).on m).2.Within horizon →
        ∃ (e : WaitError) (m' : Machine), e.Within (x.options.limitOf n) horizon ∧
          (Run.runNode x frame n).on m = (.error (.ofWait n.id e), m') ∧
          (m'.store.scope frame.top).Holds n.id (n.starved (Failure.ofWait n.id e).recordText)
  /-- By a clock that can show its limit the node fails wherever the run comes to it, because the
      run is cancelled or because the limit has elapsed.  This is on record. -/
  shown : ∀ events frame m, ∀ horizon ≥ x.options.limitOf n,
    Reaches x (x.opening { x.session seed deeds with schedule := events }) ⟨frame, .node n, m⟩ →
      ∃ (e : WaitError) (m' : Machine), e.Within (x.options.limitOf n) horizon ∧
        (Run.runNode x frame n).on m = (.error (.ofWait n.id e), m') ∧
        (m'.store.scope frame.top).Holds n.id (n.starved (Failure.ofWait n.id e).recordText)
  /-- Where the clock cannot show its limit, the run gets on only if it is cancelled. -/
  endless : ∀ events frame m, ∀ horizon < x.options.limitOf n,
    Reaches x (x.opening { x.session seed deeds with schedule := events }) ⟨frame, .node n, m⟩ →
      ((Run.runNode x frame n).on m).2.Within horizon →
        ((Run.runNode x frame n).on m).1 = .error .cancelled

/-- A node with a token that is no reference never gets all its values. -/
theorem neverGets_of_hopeless (hd : ((Node.listing x.graph.nodes).map Node.id).Nodup) {n : Node}
    (hn : n ∈ Node.listing x.graph.nodes) (hopeless : n.Hopeless) (seed : Dict String Value)
    (deeds : List Deed) : NeverGets x seed deeds n := by
  have hstanding := standing_session x seed deeds
  have hstarves := starves_session hd hn hopeless seed deeds
  -- All that is told of the node is its start and a wait that failed.
  have htold : ∀ {s : ScopeId} {o : Occurrence}, o ∈ (x.session seed deeds).course →
      o.about? = some (s, n.id) → o = .changed s n.start ∨
        ∃ e : WaitError, o = .changed s (n.fail (Failure.ofWait n.id e).recordText) :=
    fun ho habout => hstarves.course _ _ (mem_aboutNode.2 ⟨ho, habout⟩)
  have hfailed : ∀ {events : List Event} {frame : Frame} {m : Machine},
      Reaches x (x.opening { x.session seed deeds with schedule := events }) ⟨frame, .node n, m⟩ →
        ∃ (e : WaitError) (m' : Machine),
          (Run.runNode x frame n).on m = (.error (.ofWait n.id e), m') ∧
            (∀ horizon, m'.Within horizon → e.Within (x.options.limitOf n) horizon) ∧
            (m'.store.scope frame.top).Holds n.id
              (n.starved (Failure.ofWait n.id e).recordText) := by
    intro events frame m hreaches
    obtain ⟨_, hstarted⟩ := started_start x (hstanding.reschedule events).root
    exact hreaches.starves hstarted.ready (hstanding.reschedule events).sound hopeless
  constructor
  case course => exact hstarves.course
  case calls =>
    intro s call answer ho
    rcases htold ho rfl with heq | ⟨e, heq⟩ <;> cases heq
  case decisions =>
    intro s outcome used ho
    rcases htold ho rfl with heq | ⟨e, heq⟩ <;> cases n <;> cases heq
  case iterations =>
    intro s index v child ho
    rcases htold ho rfl with heq | ⟨e, heq⟩ <;> cases n <;> cases heq
  case records =>
    intro s r hr
    rcases hstarves.records s with hnone | ⟨e, halone⟩
    · exact absurd hnone hr.recordsOf_ne
    · exact ⟨_, recordText_ofWait n.id e, hr.eq_of_alone halone⟩
  case reached =>
    intro events frame m horizon hreaches hm'
    obtain ⟨e, m', hfails, hwithin, hrecord⟩ := hfailed hreaches
    rw [hfails] at hm'
    exact ⟨e, m', hwithin horizon hm', hfails, hrecord⟩
  case shown =>
    intro events frame m horizon hlimit hreaches
    obtain ⟨e, m', hfails, hwithin, hrecord⟩ := hfailed hreaches
    -- Some clock can show all that has elapsed, so the node waited no longer than its own limit.
    obtain ⟨_, hm'⟩ := m'.exists_within
    exact ⟨e, m', (hwithin _ hm').of_le hlimit, hfails, hrecord⟩
  case endless =>
    intro events frame m horizon hlimit hreaches hm'
    obtain ⟨e, m', hfails, hwithin, -⟩ := hfailed hreaches
    rw [hfails] at hm' ⊢
    -- A limit beyond the horizon cannot have elapsed, so the wait was cancelled.
    cases hwithin horizon hm' with
    | cancelled => rfl
    | timedOut token hle => exact absurd hle (Nat.not_le_of_lt hlimit)

/-- What a check of a document says of the tokens of a node, and what becomes of them in a session.
    The node is made of the step at `place`. -/
structure Heeded (document : List Step) (x : Execution) (seed : Dict String Value)
    (deeds : List Deed) (place : Location) (n : Node) : Prop where
  /-- A check warns of tokens that the node looks up, and of no others. -/
  tokens : ∀ token, Graph.Warns document place token → token ∈ n.tokens
  /-- It warns of a token just if no scope can know it. -/
  unknown : ∀ token ∈ n.tokens,
    Graph.Warns document place token ↔ ∀ s : Scope, s.lookup token = none
  /-- Where it does not, any text may stand for the token in a scope: one that was seeded with it,
      or has seen one change. -/
  known : ∀ token ∈ n.tokens, ¬ Graph.Warns document place token → ∀ text : String,
    ∃ (seed : Dict String Value) (c : Change),
      (({ seed := seed } : Scope).apply c).lookup token = some (.scalar text)
  /-- No wait for a token that it warns of brings a value, whatever happens meanwhile. -/
  waits : ∀ token, Graph.Warns document place token → ∀ m stack site limit v,
    (Machine.await m stack site limit token).1 ≠ .ok v
  /-- Among threads, a lookup of such a token that is answered at all has failed: it was cancelled,
      or its limit has elapsed, which the clock can show.  On any other limit it waits for ever. -/
  lookups : ∀ token, Graph.Warns document place token → ∀ store horizon count turns,
    ∀ th ∈ ((Threads.start store horizon count).run turns).threads, ∀ w answer,
      .answered w answer ∈ th.log → w.token = token →
        ∃ e, answer = .error e ∧ e.Within w.limit horizon
  /-- If it warns of a token, the node never gets what it looks up. -/
  starves : ∀ token, Graph.Warns document place token → NeverGets x seed deeds n

/-- A loop over nothing that can be looked up, and an action with a parameter that can. -/
def vainSteps : List Step :=
  [{ Step.forEach "@hosts" with id := some "l", body := [.execute "u"] },
    { Step.execute "v" with params := .singleton "p" "$q" }]

/-- A run of the graph of `vainSteps`. -/
def vainRun : Execution where
  graph := ⟨[.loop "l" "@hosts" none [.action "1" "u" ∅ ∅],
    .action "2" "v" (.singleton "p" "$q") ∅]⟩
  backend _ _ := .ok {}

/-- What others do meanwhile to a session of `vainRun`. -/
def vainDeeds : List Deed := [.start [⟨.anyWait, .publish (.singleton "hosts" (.scalar "h"))⟩]]

end Runbook
