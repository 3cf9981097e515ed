import Runbook.Proofs.Run.Records
import Runbook.Proofs.Run.Sessions
import Runbook.Proofs.Run.Tree
import Runbook.Report

namespace Runbook

/-!
# Running a graph — nothing is left in progress

Every story of a node ends with a change that puts the node's record to rest.  So a run leaves no
record behind that waits or is not done, however it ends and however often it is started.

* `Scope.Settled` — what is on record of a node in a scope is over;
* `Story.settles` — a story leaves its node settled, whatever was on record before;
* `Report.Settled`, `settled_annotate` — a report from settled scopes shows nothing in progress;
* `atRest_session` — the law for sessions.
-/

/-! ### Settled records -/

/-- What is on record of a node in a scope is done, and nothing waits. -/
structure Scope.Settled (s : Scope) (id : String) : Prop where
  action : ∀ r, s.actions.get? id = some r → r.done = true ∧ r.waiting = false
  choice : ∀ r, s.choices.get? id = some r → r.done = true
  loop : ∀ r, s.loops.get? id = some r → r.done = true ∧ r.waiting = false

namespace Scope.Settled

variable {s s' : Scope} {id : String}

/-- A node without records is settled. -/
theorem of_none (h : s.recordsOf id = (none, none, none)) : s.Settled id := by
  obtain ⟨haction, hrest⟩ := Prod.mk.inj h
  obtain ⟨hchoice, hloop⟩ := Prod.mk.inj hrest
  constructor
  · rw [haction]
    exact fun _ hr => by cases hr
  · rw [hchoice]
    exact fun _ hr => by cases hr
  · rw [hloop]
    exact fun _ hr => by cases hr

/-- Whether a node is settled can be seen from its records. -/
theorem congr (h : s.Settled id) (heq : s'.recordsOf id = s.recordsOf id) : s'.Settled id := by
  obtain ⟨haction, hrest⟩ := Prod.mk.inj heq
  obtain ⟨hchoice, hloop⟩ := Prod.mk.inj hrest
  constructor
  · rw [haction]
    exact h.action
  · rw [hchoice]
    exact h.choice
  · rw [hloop]
    exact h.loop

/-- A new record of an action. -/
theorem withAction (h : s.Settled id) {r : ActionRecord} (hr : r.done = true ∧ r.waiting = false)
    (heq : s'.recordsOf id = (some r, (s.recordsOf id).2)) : s'.Settled id := by
  obtain ⟨haction, hrest⟩ := Prod.mk.inj heq
  obtain ⟨hchoice, hloop⟩ := Prod.mk.inj hrest
  refine ⟨fun r' hr' => ?_, hchoice ▸ h.choice, hloop ▸ h.loop⟩
  rw [haction] at hr'
  exact Option.some.inj hr' ▸ hr

/-- A new record of a choice. -/
theorem withChoice (h : s.Settled id) {r : ChoiceRecord} (hr : r.done = true)
    (heq : s'.recordsOf id = ((s.recordsOf id).1, some r, (s.recordsOf id).2.2)) :
    s'.Settled id := by
  obtain ⟨haction, hrest⟩ := Prod.mk.inj heq
  obtain ⟨hchoice, hloop⟩ := Prod.mk.inj hrest
  refine ⟨haction ▸ h.action, fun r' hr' => ?_, hloop ▸ h.loop⟩
  rw [hchoice] at hr'
  exact Option.some.inj hr' ▸ hr

/-- A new record of a loop. -/
theorem withLoop (h : s.Settled id) {r : LoopRecord} (hr : r.done = true ∧ r.waiting = false)
    (heq : s'.recordsOf id = ((s.recordsOf id).1, (s.recordsOf id).2.1, some r)) :
    s'.Settled id := by
  obtain ⟨haction, hrest⟩ := Prod.mk.inj heq
  obtain ⟨hchoice, hloop⟩ := Prod.mk.inj hrest
  refine ⟨haction ▸ h.action, hchoice ▸ h.choice, fun r' hr' => ?_⟩
  rw [hloop] at hr'
  exact Option.some.inj hr' ▸ hr

end Scope.Settled

/-- **Stories settle their nodes.** Every way to run a node ends with a record that is done. -/
theorem Story.settles {s : ScopeId} {n : Node} {story : List Occurrence} (h : Story s n story)
    {before : Scope} (hbefore : before.Settled n.id) : (before.after s story).Settled n.id := by
  cases h with
  | starved e => exact hbefore.withAction ⟨rfl, rfl⟩ (recordsOf_starved before s _ _)
  | failed values e => exact hbefore.withAction ⟨rfl, rfl⟩ (recordsOf_failed before s _ _ _ e)
  | done values result =>
    exact hbefore.withAction ⟨rfl, rfl⟩ (recordsOf_done before s _ _ _ result _)
  | undecided f => exact hbefore.withChoice rfl (recordsOf_undecided before s _ _)
  | decided b used => exact hbefore.withChoice rfl (recordsOf_decided before s _ b used)
  | broken its f =>
    exact hbefore.withLoop ⟨rfl, rfl⟩ (recordsOf_loop before (.inr ⟨f.recordText, rfl⟩) its)
  | finished its => exact hbefore.withLoop ⟨rfl, rfl⟩ (recordsOf_loop before (.inl rfl) its)

/-! ### Sessions -/

/-- Nothing is in progress in any scope. -/
def Machine.Settled (m : Machine) : Prop := ∀ s id, (m.store.scope s).Settled id

variable {x : Execution} {seed : Dict String Value} {m m' : Machine} {happened : List Occurrence}

/-- A stretch in which all that is told of a node is one story settles what it tells of. -/
theorem Tells.settles {scopes : ScopeId → Prop} {nodes : List Node}
    (h : Tells scopes nodes happened) (hext : Extends x.backend m happened m')
    (hm : m.Sound x.backend seed) (hsettled : m.Settled) : m'.Settled := by
  intro s id
  have hrecords := hext.recordsOf hm s id
  by_cases htold : aboutNode s id happened = []
  · rw [htold] at hrecords
    exact (hsettled s id).congr hrecords
  · obtain ⟨-, n, -, rfl, hstory⟩ := h s id htold
    exact (hstory.settles (hsettled s n.id)).congr hrecords

/-- Every deed leaves all records settled. -/
theorem settled_undergo (hd : ((Node.listing x.graph.nodes).map Node.id).Nodup)
    (hm : m.Standing x.backend seed) (hsettled : m.Settled) (d : Deed) :
    (x.undergo m d).Settled := by
  cases d with
  | start events =>
    have hstanding := hm.reschedule events
    obtain ⟨happened, hstarted⟩ := started_start x hstanding.root
    exact (hstarted.tells hd).settles hstarted.extends hstanding.sound hsettled
  | outside effect =>
    obtain ⟨happened, hext, hforeign⟩ := Machine.extends_perform x.backend hm.root effect
    have htells : Tells (fun _ => False) [] happened :=
      .of_about? (Occurrence.about?_of_foreign hforeign)
    exact htells.settles hext hm.sound hsettled

/-- After a session all records are settled, by induction on its deeds. -/
theorem settled_session (hd : ((Node.listing x.graph.nodes).map Node.id).Nodup)
    (seed : Dict String Value) (deeds : List Deed) : (x.session seed deeds).Settled := by
  refine session_induction (fun s id => ?_) (fun _ hm h d => settled_undergo hd hm h d) deeds
  rw [(standing_fresh x.backend seed).sound.told]
  exact .of_none (recordsOf_initial seed s id)

/-! ### Reports -/

/-- A report shows nothing in progress, at whatever depth. -/
inductive Report.Settled : Report → Prop
  | intro {r : Report} :
      (r.progress = .notStarted ∨ r.progress = .done) →
      (∀ q ∈ r.onTrue, Settled q) → (∀ q ∈ r.onFalse, Settled q) →
      (∀ p ∈ r.iterations, ∀ q ∈ p.body, Settled q) → Settled r

namespace Report

mutual

/-- Nothing is under way in a step that has not run. -/
theorem settled_untouched : ∀ s : Step, (untouched s).Settled
  | ⟨id, kind, urn, params, exports, condition, onTrue, onFalse, iterateOn, itemAs, body⟩ => by
    rw [untouched]
    exact .intro (.inl rfl) (settled_untouchedAll onTrue) (settled_untouchedAll onFalse)
      fun p hp => absurd hp List.not_mem_nil

/-- Nothing is under way in steps that have not run. -/
theorem settled_untouchedAll : ∀ steps : List Step, ∀ q ∈ untouchedAll steps, q.Settled
  | [], q, hq => absurd hq List.not_mem_nil
  | s :: rest, q, hq => by
    rw [untouchedAll] at hq
    rcases List.mem_cons.1 hq with rfl | hq
    · exact settled_untouched s
    · exact settled_untouchedAll rest q hq

end

/-- The record of an action that is done keeps a report settled. -/
theorem Settled.withAction {r : Report} (h : r.Settled) {a : ActionRecord} (ha : a.done = true) :
    (r.withAction a).Settled := by
  obtain ⟨-, hyes, hno, hpasses⟩ := h
  have hprogress : Progress.of a.done a.waiting = .done := by
    rw [ha]
    rfl
  unfold Report.withAction
  cases a.result with
  | none => exact .intro (.inr hprogress) hyes hno hpasses
  | some result =>
    dsimp only
    by_cases hraw : result.raw.isEmpty
    · rw [if_pos hraw]
      exact .intro (.inr hprogress) hyes hno hpasses
    · rw [if_neg hraw]
      exact .intro (.inr hprogress) hyes hno hpasses

mutual

/-- Records that are settled make a report that is settled, by recursion on the step. -/
theorem settled_annotateStep {store : Store} (h : ∀ s id, (store.scope s).Settled id) :
    ∀ (step : Step) (scope : ScopeId), (annotateStep store scope step).Settled
  | ⟨id, kind, urn, params, exports, condition, onTrue, onFalse, iterateOn, itemAs, body⟩,
      scope => by
    have hplain := settled_untouched
      ⟨id, kind, urn, params, exports, condition, onTrue, onFalse, iterateOn, itemAs, body⟩
    have hknown := h scope (id.getD "")
    rw [annotateStep]
    generalize untouched ⟨id, kind, urn, params, exports, condition, onTrue, onFalse, iterateOn,
      itemAs, body⟩ = plain at *
    dsimp only
    by_cases hexec : plain.kind = Step.executeKind
    · rw [if_pos hexec]
      cases ha : (store.scope scope).actions.get? (id.getD "") with
      | none => exact hplain
      | some a => exact hplain.withAction (hknown.action a ha).1
    rw [if_neg hexec]
    have ⟨_, hyes, hno, hpasses⟩ := hplain
    by_cases hif : plain.kind = Step.ifKind
    · rw [if_pos hif]
      cases hc : (store.scope scope).choices.get? (id.getD "") with
      | none => exact hplain
      | some c =>
        have hprogress : Progress.of c.done true = .done := by
          rw [hknown.choice c hc]
          rfl
        -- Of the branches at most the chosen one is looked up in the scope.
        dsimp only
        match c.outcome with
        | some true =>
          exact .intro (.inr hprogress) (settled_annotate h onTrue scope) hno hpasses
        | some false =>
          exact .intro (.inr hprogress) hyes (settled_annotate h onFalse scope) hpasses
        | none => exact .intro (.inr hprogress) hyes hno hpasses
    rw [if_neg hif]
    by_cases hfor : plain.kind = Step.forKind
    · rw [if_pos hfor]
      cases hl : (store.scope scope).loops.get? (id.getD "") with
      | none => exact hplain
      | some l =>
        have hprogress : Progress.of l.done l.waiting = .done := by
          rw [(hknown.loop l hl).1]
          rfl
        refine .intro (.inr hprogress) hyes hno fun p hp => ?_
        obtain ⟨e, -, rfl⟩ := List.mem_map.1 hp
        exact settled_annotate h body e.2.scope
    · rw [if_neg hfor]
      exact hplain

/-- **Reports.** A report from settled scopes shows nothing in progress. -/
theorem settled_annotate {store : Store} (h : ∀ s id, (store.scope s).Settled id) :
    ∀ (steps : List Step) (scope : ScopeId), ∀ q ∈ annotate store scope steps, q.Settled
  | [], scope, q, hq => absurd hq List.not_mem_nil
  | s :: rest, scope, q, hq => by
    rw [annotate] at hq
    rcases List.mem_cons.1 hq with rfl | hq
    · exact settled_annotateStep h s scope
    · exact settled_annotate h rest scope q hq

end

end Report

/-! ### The law -/

/-- Nothing is in progress, neither on record nor in a report. -/
structure AtRest (m : Machine) : Prop where
  /-- In every scope, whether or not a loop still leads to it, every record is done and waits for
      nothing. -/
  records : m.Settled
  /-- Whatever document is reported on from the root scope, at whatever depth every step is done or
      was not started. -/
  reports : ∀ document, ∀ r ∈ Report.annotate m.store m.root document, r.Settled

/-- **Nothing is left in progress.** For every graph that was built and every session: however often
    it was started, and however the starts ended. -/
theorem atRest_session {document : List Step} {ids rest : IdSource} (x : Execution)
    (h : Graph.build document ids = (.ok x.graph, rest)) (seed : Dict String Value)
    (deeds : List Deed) : AtRest (x.session seed deeds) := by
  obtain ⟨-, hd⟩ := Graph.build_ok h
  have hsettled := settled_session hd seed deeds
  exact ⟨hsettled, fun document => Report.settled_annotate hsettled document _⟩

/-- A run that halts in its second iteration, and another one that halts in its first. -/
theorem atRest_nestedRun :
    Graph.build Graph.nestedSteps .fresh = (.ok nestedRun.graph, ⟨5⟩) ∧
      AtRest (nestedRun.session ∅ [.start nestedEvents, .start []]) :=
  ⟨Graph.build_nestedSteps, atRest_session nestedRun Graph.build_nestedSteps ∅ _⟩

end Runbook
