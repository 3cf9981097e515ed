import Runbook.Proofs.Graph.Checked
import Runbook.Proofs.Run.Cancelled
import Runbook.Proofs.Run.Failures
import Runbook.Proofs.Run.Linked

namespace Runbook

/-!
# Running a graph — what the checks of a graph are good for

A run reads the conditions of a graph once more and takes its urns, elements and links as they are.
If the graph was built, none of this goes wrong: no condition is malformed or lacks a value, no
action is called without a urn, and no link leads nowhere.

* `Condition.evaluate_bindEach` — a condition with a value for each reference lacks none;
* `Foresees`, `Exec.foresees` — what happens when checked nodes run, by induction;
* `Reaches.subset`, `Reaches.ready` — a run comes only to nodes of its graph, on machines that are
  ready for them;
* `Scope.Foreseen` — the errors on record in a scope;
* `Vetted`, `vetted_session` — the law for sessions.
-/

variable {x : Execution} {frame : Frame} {m m' : Machine} {happened : List Occurrence}

/-! ### Conditions with values for their references -/

namespace Condition

/-- Binding values leaves the comparison as it was parsed. -/
theorem comparison_bindEach (tokens : List String) : ∀ (c : Condition) (values : List Value),
    (c.bindEach tokens values).comparison = c.comparison := by
  induction tokens with
  | nil => exact fun _ _ => rfl
  | cons token rest ih =>
    intro c values
    cases values with
    | nil => rfl
    | cons v values => exact ih (c.bind token v) values

/-- With as many values as tokens, each token is bound, and what was bound before still is. -/
theorem isSome_bindEach (tokens : List String) : ∀ (c : Condition) (values : List Value),
    values.length = tokens.length → ∀ token : String,
      (c.bound.get? token).isSome ∨ token ∈ tokens →
        ((c.bindEach tokens values).bound.get? token).isSome := by
  induction tokens with
  | nil => exact fun _ _ _ _ h => h.resolve_right List.not_mem_nil
  | cons first rest ih =>
    intro c values hlength token h
    cases values with
    | nil => cases hlength
    | cons v values =>
      refine ih (c.bind first v) values (Nat.succ.inj hlength) token ?_
      have hbind : (c.bind first v).bound.get? token =
          if token = first then some v else c.bound.get? token := Dict.get?_insert ..
      by_cases heq : token = first
      · exact .inl (by rw [hbind, if_pos heq]; rfl)
      · rw [hbind, if_neg heq]
        exact h.imp_right fun hmem => (List.mem_cons.1 hmem).resolve_left heq

/-- An operand whose reference is bound has a text. -/
theorem textOf_ok {c : Condition} {o : Operand}
    (h : ∀ token, o = .reference token → (c.bound.get? token).isSome) :
    ∃ s, c.textOf o = .ok s := by
  cases o with
  | literal s => exact ⟨s, rfl⟩
  | reference token =>
    obtain ⟨v, hv⟩ := Option.isSome_iff_exists.1 (h token rfl)
    exact ⟨v.text, by rw [textOf, hv]⟩

/-- Two texts can fail to be compared only because they have no order. -/
theorem holds_error {op : Operator} {lhs rhs : String} {e : EvalError}
    (h : op.holds lhs rhs = .error e) : e = .unsupported op lhs rhs := by
  unfold Operator.holds at h
  split at h
  · cases h
  · -- Texts that are not both integers can still be equal or not.
    split at h <;> cases h
    rfl

/-- **Values for all references.** A condition that has them fails only where two texts have no
    order. -/
theorem evaluate_bindEach {c : Condition} {values : List Value} {e : EvalError}
    (hlength : values.length = c.comparison.references.length)
    (h : (c.bindEach c.comparison.references values).evaluate = .error e) :
    ∃ op lhs rhs, e = .unsupported op lhs rhs := by
  have hbound := isSome_bindEach c.comparison.references c values hlength
  have hsame := comparison_bindEach c.comparison.references c values
  generalize c.bindEach c.comparison.references values = bound at *
  obtain ⟨lhs, hlhs⟩ := textOf_ok (c := bound) (o := bound.comparison.lhs) fun token hl =>
    hbound token (.inr (Comparison.mem_references.2 (.inl (hsame ▸ hl))))
  obtain ⟨rhs, hrhs⟩ := textOf_ok (c := bound) (o := bound.comparison.rhs) fun token hr =>
    hbound token (.inr (Comparison.mem_references.2 (.inr (hsame ▸ hr))))
  unfold evaluate at h
  rw [hlhs, hrhs] at h
  exact ⟨_, lhs, rhs, holds_error h⟩

end Condition

/-! ### What happens when checked nodes run -/

/-- If the change puts a failure on record, it is none that is ruled out.  The texts on the records
    of actions are left open: a backend may say of a failed call what it likes. -/
def Change.Foreseen : Change → Prop
  | .failChoice _ e => ∃ f : Failure, f.OfChoice ∧ e = f.recordText
  | .failLoop _ e => ∃ f : Failure, f.OfLoop ∧ e = f.recordText
  | .closeWithError e => ∃ f : Failure, f.Foreseen ∧ e = f.message
  | _ => True

def Occurrence.Foreseen : Occurrence → Prop
  | .changed _ c => c.Foreseen
  | .called _ _ c _ => c.urn ≠ "" ∧ Text.trim c.urn = c.urn
  | _ => True

/-- What comes from outside puts no failure on record. -/
theorem Occurrence.IsForeign.foreseen {root : ScopeId} {o : Occurrence} (h : o.IsForeign root) :
    o.Foreseen := by
  cases o with
  | changed | called => exact False.elim h
  | _ => trivial

/-- One more occurrence. -/
theorem foreseen_concat {o : Occurrence} (h : ∀ o ∈ happened, o.Foreseen) (ho : o.Foreseen) :
    ∀ o' ∈ happened ++ [o], o'.Foreseen :=
  List.forall_mem_append.2 ⟨h, List.forall_mem_singleton.2 ho⟩

/-- What is published puts no failure on record. -/
theorem foreseen_publication (scopes : List ScopeId) (values : Dict String Value) :
    ∀ o ∈ Occurrence.publication scopes values, o.Foreseen := by
  intro o ho
  rw [Occurrence.eq_of_mem_publication ho]
  trivial

/-- What happens in a stretch of a run, and how it ends, is foreseen. -/
structure Foresees {α : Type} (happened : List Occurrence) (answer : Except Failure α) : Prop where
  happened : ∀ o ∈ happened, o.Foreseen
  answer : ∀ f, answer = .error f → f.Foreseen

namespace Foresees

variable {α : Type} {answer : Except Failure α} {f : Failure} {before after : List Occurrence}

/-- A stretch that ends well. -/
theorem ok (h : ∀ o ∈ happened, o.Foreseen) (a : α) :
    Foresees happened (.ok a : Except Failure α) :=
  ⟨h, fun f hf => by cases hf⟩

/-- A stretch that fails as it may. -/
theorem error (h : ∀ o ∈ happened, o.Foreseen) (hf : f.Foreseen) :
    Foresees happened (.error f : Except Failure α) :=
  ⟨h, fun _ heq => Except.error.inj heq ▸ hf⟩

/-- A stretch before, which may have ended in any way. -/
theorem prepend (h : Foresees after answer) (hbefore : ∀ o ∈ before, o.Foreseen) :
    Foresees (before ++ after) answer :=
  ⟨List.forall_mem_append.2 ⟨hbefore, h.happened⟩, h.answer⟩

/-- A failed stretch, with its failure put on record in a scope. -/
theorem closed (h : Foresees happened (.error f : Except Failure α)) (s : ScopeId) :
    ∀ o ∈ happened ++ [.changed s (.closeWithError f.message)], o.Foreseen :=
  foreseen_concat h.happened ⟨f, h.answer f rfl, rfl⟩

/-- A choice that fails as it may, with its record. -/
theorem ofChoice (h : ∀ o ∈ happened, o.Foreseen) (s : ScopeId) (id : String) (hf : f.OfChoice) :
    Foresees (happened ++ [.changed s (.failChoice id f.recordText)])
      (.error f : Except Failure α) :=
  .error (foreseen_concat h ⟨f, hf, rfl⟩) hf.foreseen

/-- A loop that fails as it may, with its record. -/
theorem ofLoop (h : ∀ o ∈ happened, o.Foreseen) (s : ScopeId) (id : String) (hf : f.OfLoop) :
    Foresees (happened ++ [.changed s (.failLoop id f.recordText)])
      (.error f : Except Failure α) :=
  .error (foreseen_concat h ⟨f, hf, rfl⟩) hf.foreseen

end Foresees

variable {id : String} {limit : Nat} {tokens : List String}

/-- What happens in a wait after a change is foreseen if the change is. -/
theorem Awaited.foreseen {c : Change} {waited : Except WaitError (List Value)} (hm : m.Ready frame)
    (h : Awaited frame id limit tokens (m.change frame.top c) happened waited m')
    (hc : c.Foreseen) : ∀ o ∈ [.changed frame.top c] ++ happened, o.Foreseen :=
  List.forall_mem_append.2 ⟨List.forall_mem_singleton.2 hc, fun o ho =>
    (h.foreign_after hm o ho).foreseen⟩

/-- What happens up to the end of a call is foreseen if the action has a urn. -/
theorem Awaited.foreseen_call {c c' : Change} {values : List Value} {m₁ : Machine}
    {call : ActionCall} {answer : Except ActionError ActionResult} {heard : List Occurrence}
    (hm : m.Ready frame)
    (h : Awaited frame id limit tokens (m.change frame.top c) happened (.ok values) m₁)
    (hcall : Called x frame id call (m₁.change frame.top c') answer heard m')
    (hc : c.Foreseen) (hc' : c'.Foreseen)
    (hurn : call.urn ≠ "" ∧ Text.trim call.urn = call.urn) :
    ∀ o ∈ [.changed frame.top c] ++ happened ++ [.changed frame.top c'] ++
      ([.called frame.top id call answer] ++ heard), o.Foreseen :=
  List.forall_mem_append.2 ⟨foreseen_concat (h.foreseen hm hc) hc',
    List.forall_mem_append.2 ⟨List.forall_mem_singleton.2 hurn, fun o ho =>
      (h.heard_foreign hm hcall o ho).foreseen⟩⟩

/-- An action that has a urn. -/
theorem Acts.foresees {urn : String} {params exports : Dict String String} {outcome : Outcome}
    (h : Acts x frame id urn params exports m happened outcome m') (hm : m.Ready frame)
    (hurn : urn ≠ "" ∧ Text.trim urn = urn) : Foresees happened outcome := by
  cases h with
  | starved hw =>
    have hwait := hw.foreseen hm trivial
    exact .error (foreseen_concat hwait trivial) (Failure.foreseen_ofWait _ _)
  | failed hw hcall =>
    have hcalled := hw.foreseen_call hm hcall trivial trivial hurn
    exact .error (foreseen_concat hcalled trivial) (Failure.foreseen_actionFailed _ _)
  | done hw hcall =>
    have hcalled := hw.foreseen_call hm hcall trivial trivial hurn
    refine .ok (foreseen_concat (List.forall_mem_append.2
      ⟨hcalled, foreseen_publication _ _⟩) ?_) _
    trivial

/-- A choice whose condition is well formed. -/
theorem Decides.foresees {condition : String} {answer : Except Failure Bool}
    (h : Decides x frame id condition m happened answer m') (hm : m.Ready frame)
    (hparse : ∃ c, Condition.parse condition = .ok c) : Foresees happened answer := by
  cases h with
  | malformed hmalformed =>
    obtain ⟨c, hc⟩ := hparse
    rw [hmalformed] at hc
    cases hc
  | starved _ hw => exact .ofChoice (hw.foreseen hm trivial) _ _ (.starved id _)
  | undecidable _ hw hvalue =>
    obtain ⟨op, lhs, rhs, rfl⟩ := Condition.evaluate_bindEach hw.length_eq hvalue
    exact .ofChoice (hw.foreseen hm trivial) _ _ (.undecidable ..)
  | decided _ hw hvalue => exact .ok (foreseen_concat (hw.foreseen hm trivial) (by trivial)) _

/-- An iteration, up to the end of its body. -/
theorem foresees_body {itemAs : Option String} {index : Nat} {v : Value} {outcome : Outcome}
    (hm : m.Ready frame)
    (hbody : (m.openIteration frame id itemAs index v).Ready (frame.inner id index m.store.size) →
      Foresees happened outcome) :
    Foresees (openingOf frame id itemAs index v m.store.size ++ happened) outcome := by
  -- No call is made by opening it, so any backend will do.
  have hready := (extends_openIteration (fun _ _ => .ok {}) hm id itemAs index v).2
  refine (hbody hready).prepend (List.forall_mem_append.2
    ⟨foreseen_concat (List.forall_mem_singleton.2 trivial) trivial, fun o ho => ?_⟩)
  obtain ⟨name, -, rfl⟩ := List.mem_map.1 ho
  trivial

/-- **Checked nodes.** When they run, all that happens is foreseen. -/
theorem Exec.foresees {task : Task} {outcome : Outcome}
    (h : Exec x frame task m happened outcome m') (hm : m.Ready frame)
    (hchecked : ∀ n ∈ task.listing, n.Checked) : Foresees happened outcome := by
  induction h with
  | nil | noRounds => exact .ok (List.forall_mem_nil _) ()
  | stopped => exact .error (List.forall_mem_nil _) Failure.foreseen_cancelled
  | failed _ _ ih => exact ih hm fun n hn => hchecked n (List.mem_append_left _ hn)
  | cons _ h _ ih ih' =>
    have hbefore := ih hm fun n hn => hchecked n (List.mem_append_left _ hn)
    have hafter := ih' ((h.extends hm).ready hm) fun n hn => hchecked n (List.mem_append_right _ hn)
    exact hafter.prepend hbefore.happened
  | action h => exact h.foresees hm (hchecked _ (List.mem_singleton_self _))
  | undecided h =>
    obtain ⟨hhappened, hf⟩ := h.foresees hm (hchecked _ List.mem_cons_self)
    exact .error hhappened (hf _ rfl)
  | @decided _ _ _ yes no _ _ _ _ _ b _ h _ ih =>
    have hbefore := h.foresees hm (hchecked _ List.mem_cons_self)
    have hafter := ih ((h.extends hm).ready hm) fun n hn =>
      hchecked n (List.mem_cons_of_mem _ (Node.listing_branch b yes no hn))
    exact hafter.prepend hbefore.happened
  -- A failure of the elements or of an iteration is told as a failure of the loop.
  | starved hw => exact .ofLoop (hw.foreseen hm trivial) _ _ (.starved _ _)
  | broken hw _ ih =>
    have hready := (hw.extends_after x.backend hm).ready hm
    exact (ih hready fun n hn => hchecked n (List.mem_cons_of_mem _ hn)).prepend
      (hw.foreseen hm trivial)
  | finished hw _ ih =>
    have hready := (hw.extends_after x.backend hm).ready hm
    have hrounds := (ih hready fun n hn => hchecked n (List.mem_cons_of_mem _ hn)).prepend
      (hw.foreseen hm trivial)
    exact .ok (foreseen_concat hrounds.happened (by trivial)) ()
  | lastRound _ ih => exact ih hm hchecked
  | nextRound h _ ih ih' =>
    have hround := ih hm hchecked
    exact (ih' ((h.extends hm).ready hm) hchecked).prepend hround.happened
  | refused =>
    exact .error (List.forall_mem_singleton.2 ⟨_, .cancelled, rfl⟩) Failure.foreseen_cancelled
  | completed _ _ ih =>
    have hbody := foresees_body hm fun hready => ih hready hchecked
    exact .ok (foreseen_concat hbody.happened (by trivial)) ()
  | passed _ _ _ _ ih =>
    have hbody := foresees_body hm fun hready => ih hready hchecked
    exact .ok (hbody.closed _) ()
  | halted _ _ _ _ ih =>
    have hbody := foresees_body hm fun hready => ih hready hchecked
    exact .ofLoop (hbody.closed _) _ _ (.iteration _ _ (hbody.answer _ rfl))
  | interrupted _ _ ih =>
    have hbody := foresees_body hm fun hready => ih hready hchecked
    exact .ofLoop hbody.happened _ _ .cancelled

/-! ### Where a run gets to -/

/-- Running any task is an execution of it. -/
theorem runs_task (x : Execution) (task : Task) (frame : Frame) :
    Runs x frame task (task.run x frame) := by
  cases task with
  | nodes list => exact runs_runNodes x list frame
  | node n => exact runs_runNode x n frame
  | rounds id itemAs body index values =>
    exact runs_iterateAll (fun inner => runs_runNodes x body inner) frame id itemAs values index
  | round id itemAs body index v =>
    exact runs_iterate (fun inner => runs_runNodes x body inner) frame id itemAs index v

/-- A task on a machine that is ready for it extends the machine. -/
theorem Task.extends (task : Task) (hm : m.Ready frame) {outcome : Outcome}
    (h : (task.run x frame).on m = (outcome, m')) :
    ∃ happened, Extends x.backend m happened m' := by
  obtain ⟨happened, hexec⟩ := runs_task x task frame m hm
  rw [h] at hexec
  exact ⟨happened, hexec.extends hm⟩

variable {first next : Stage}

/-- A stage has no other nodes than the one that leads to it. -/
theorem Enters.subset (h : Enters x first next) : next.task.listing ⊆ first.task.listing := by
  cases h with
  | head => exact List.subset_append_left _ _
  | tail => exact List.subset_append_right _ _
  | branch => exact List.subset_cons_of_subset _ (Node.listing_branch _ _ _)
  | rounds => exact List.subset_cons_self _ _
  | round | nextRound | body => exact List.Subset.refl _

/-- What a stage leads to extends its machine. -/
theorem Enters.extends (h : Enters x first next) (hready : first.machine.Ready first.frame) :
    ∃ happened, Extends x.backend first.machine happened next.machine := by
  cases h with
  | head | round => exact ⟨[], .refl _⟩
  | @tail _ n _ _ _ _ hrun => exact Task.extends (.node n) hready hrun
  | branch hdecide =>
    obtain ⟨happened, h⟩ := decides_decideOutcome x hready _ _
    rw [hdecide] at h
    exact ⟨happened, h.extends hready⟩
  | @rounds frame id elements _ _ m m₁ v hwait =>
    have hstart : Extends x.backend m _ _ := .change hready.top (.startLoop id true)
    obtain ⟨_, hext, -⟩ := Machine.extends_awaitDuring x.backend frame.stack ⟨id, frame.path⟩
      x.options.loopLimit elements m.schedule _ (hstart.ready hready).root
    have hend : (Machine.awaitDuring frame.stack ⟨id, frame.path⟩ x.options.loopLimit elements
        (m.change frame.top (.startLoop id true)) m.schedule).2 = m₁ := congrArg Prod.snd hwait
    exact ⟨_, hend ▸ hstart.trans hext⟩
  | @nextRound _ id itemAs body index v _ _ _ hrun =>
    exact Task.extends (.round id itemAs body index v) hready hrun
  | body => exact ⟨_, (extends_openIteration x.backend hready _ _ _ _).1⟩

/-- The machine is ready for the stage that is led to. -/
theorem Enters.ready (h : Enters x first next) (hready : first.machine.Ready first.frame) :
    next.machine.Ready next.frame := by
  obtain ⟨_, hext⟩ := h.extends hready
  cases h with
  | body => exact (extends_openIteration x.backend hready _ _ _ _).2
  | _ => exact hext.ready hready

/-- Only nodes of the first task are reached. -/
theorem Reaches.subset (h : Reaches x first next) : next.task.listing ⊆ first.task.listing := by
  induction h with
  | refl => exact List.Subset.refl _
  | tail _ henters ih => exact List.Subset.trans henters.subset ih

/-- Wherever a run gets to, its frame is ready. -/
theorem Reaches.ready (h : Reaches x first next) (hready : first.machine.Ready first.frame) :
    next.machine.Ready next.frame := by
  induction h with
  | refl => exact hready
  | tail _ henters ih => exact henters.ready ih

/-- Getting somewhere extends the machine. -/
theorem Reaches.extends (h : Reaches x first next) (hready : first.machine.Ready first.frame) :
    ∃ happened, Extends x.backend first.machine happened next.machine := by
  induction h with
  | refl => exact ⟨[], .refl _⟩
  | tail hreaches henters ih =>
    obtain ⟨before, hbefore⟩ := ih
    obtain ⟨after, hafter⟩ := henters.extends (Reaches.ready hreaches hready)
    exact ⟨before ++ after, hbefore.trans hafter⟩

/-- **Parts of a run.** If a part of it fails, then in a way that is not ruled out. -/
theorem Reaches.foreseen (h : Reaches x first next) (hready : first.machine.Ready first.frame)
    (hchecked : ∀ n ∈ first.task.listing, n.Checked) {f : Failure}
    (hrun : (next.task.run x next.frame).on next.machine = (.error f, m')) : f.Foreseen := by
  obtain ⟨_, hexec⟩ := runs_task x next.task next.frame next.machine (h.ready hready)
  rw [hrun] at hexec
  have hall := hexec.foresees (h.ready hready) fun n hn => hchecked n (h.subset hn)
  exact hall.answer f rfl

/-! ### Errors on record in a scope -/

/-- No error on record in a scope is one of a failure that is ruled out. -/
structure Scope.Foreseen (s : Scope) : Prop where
  choices : ∀ id r, s.choices.get? id = some r → ∀ e, r.error = some e →
    ∃ f : Failure, f.OfChoice ∧ e = f.recordText
  loops : ∀ id r, s.loops.get? id = some r → ∀ e, r.error = some e →
    ∃ f : Failure, f.OfLoop ∧ e = f.recordText
  error : ∀ e, s.error = some e → ∃ f : Failure, f.Foreseen ∧ e = f.message

namespace Scope.Foreseen

variable {s : Scope}

/-- A change that is foreseen keeps the errors of a scope foreseen. -/
theorem apply (h : s.Foreseen) {c : Change} (hc : c.Foreseen) : (s.apply c).Foreseen := by
  suffices hchange : (s.change c).Foreseen from ⟨hchange.choices, hchange.loops, hchange.error⟩
  have hnone : ∀ {P : String → Prop}, ∀ e, none = some e → P e := fun _ he => by cases he
  cases c with
  | startChoice id => exact ⟨Dict.forall_insert h.choices id hnone, h.loops, h.error⟩
  | decideChoice id outcome used =>
    exact ⟨Dict.forall_update h.choices id hnone fun _ hr => hr, h.loops, h.error⟩
  | failChoice id error =>
    have hnew : ∀ e, some error = some e → ∃ f : Failure, f.OfChoice ∧ e = f.recordText :=
      fun e he => Option.some.inj he ▸ hc
    exact ⟨Dict.forall_update h.choices id hnone fun _ _ => hnew, h.loops, h.error⟩
  | startLoop id waiting => exact ⟨h.choices, Dict.forall_insert h.loops id hnone, h.error⟩
  | startIteration id index v child =>
    refine ⟨h.choices, Dict.forall_update h.loops id hnone fun r hr => ?_, h.error⟩
    exact fun e he => hr e ((Scope.error_freeze r).symm.trans he)
  | failLoop id error =>
    have hnew : ∀ e, some error = some e → ∃ f : Failure, f.OfLoop ∧ e = f.recordText :=
      fun e he => Option.some.inj he ▸ hc
    exact ⟨h.choices, Dict.forall_update h.loops id hnone fun _ _ => hnew, h.error⟩
  | finishLoop id =>
    show (if s.loops.contains id then _ else s).Foreseen
    by_cases hid : s.loops.contains id
    · rw [if_pos hid]
      refine ⟨h.choices, Dict.forall_update h.loops id hnone fun r hr => ?_, h.error⟩
      exact fun e he => hr e ((Scope.error_freeze r).symm.trans he)
    · rw [if_neg hid]
      exact h
  | closeWithError error =>
    exact ⟨h.choices, h.loops, fun e he => Option.some.inj he ▸ hc⟩
  | _ => exact ⟨h.choices, h.loops, h.error⟩

/-- `apply` for several changes. -/
theorem foldl_apply {changes : List Change} (h : s.Foreseen) (hc : ∀ c ∈ changes, c.Foreseen) :
    (changes.foldl Scope.apply s).Foreseen :=
  List.foldlRecOn changes Scope.apply h fun _ hs c hmem => hs.apply (hc c hmem)

end Scope.Foreseen

/-- What a foreseen occurrence changes is foreseen. -/
theorem Occurrence.Foreseen.changesOf {o : Occurrence} (h : o.Foreseen) (s : ScopeId) :
    ∀ c ∈ o.changesOf s, c.Foreseen := by
  intro c hc
  cases o with
  | changed t d =>
    simp only [Occurrence.changesOf] at hc
    by_cases hts : t = s
    · rw [if_pos hts, List.mem_singleton] at hc
      exact hc ▸ h
    · rw [if_neg hts] at hc
      cases hc
  | published scopes values =>
    rw [List.eq_of_mem_replicate hc]
    trivial
  | _ => cases hc

/-- What is on record in a scope is what the course tells of it. -/
theorem Machine.Sound.foreseen {backend : Backend} {seed : Dict String Value}
    (h : m.Sound backend seed) (hcourse : ∀ o ∈ m.course, o.Foreseen) (s : ScopeId) :
    (m.store.scope s).Foreseen := by
  rw [h.told s, Scope.told]
  refine Scope.Foreseen.foldl_apply ?_ fun c hc => ?_
  · unfold Scope.initial
    split <;> constructor <;> simp
  · obtain ⟨o, ho, hc⟩ := List.mem_flatMap.1 hc
    exact (hcourse o ho).changesOf s c hc

/-! ### Sessions -/

/-- A start of a checked graph fails as it may. -/
theorem Started.foresees {outcome : Outcome} (h : Started x m happened outcome m')
    (hchecked : ∀ n ∈ Node.listing x.graph.nodes, n.Checked) :
    Foresees (happened ++ [.changed m.root outcome.closing]) outcome := by
  obtain ⟨m₁, hexec, -⟩ := h.exec
  have hall := hexec.foresees h.ready hchecked
  refine ⟨?_, hall.answer⟩
  cases outcome with
  | ok => exact foreseen_concat hall.happened trivial
  | error f => exact hall.closed m.root

variable {seed : Dict String Value}

/-- Whatever is done next, all that happens is foreseen. -/
theorem foreseen_undergo (hchecked : ∀ n ∈ Node.listing x.graph.nodes, n.Checked)
    (hm : m.Standing x.backend seed) (hcourse : ∀ o ∈ m.course, o.Foreseen) (d : Deed) :
    ∀ o ∈ (x.undergo m d).course, o.Foreseen := by
  cases d with
  | start events =>
    obtain ⟨happened, hstarted⟩ := started_start x (hm.reschedule events).root
    have hcourse' : (x.undergo m (.start events)).course = m.course ++ _ :=
      hstarted.extends.course
    rw [hcourse']
    exact List.forall_mem_append.2 ⟨hcourse, (hstarted.foresees hchecked).happened⟩
  | outside effect =>
    obtain ⟨happened, hext, hforeign⟩ := Machine.extends_perform x.backend hm.root effect
    have hcourse' : (x.undergo m (.outside effect)).course = m.course ++ happened := hext.course
    rw [hcourse']
    exact List.forall_mem_append.2 ⟨hcourse, fun o ho => (hforeign o ho).foreseen⟩

/-- The starts of a session, by induction on its deeds. -/
theorem foreseen_outcomes (hchecked : ∀ n ∈ Node.listing x.graph.nodes, n.Checked)
    (deeds : List Deed) : ∀ {m : Machine}, m.Standing x.backend seed →
      ∀ outcome ∈ x.outcomes m deeds, ∀ f, outcome = .error f → f.Foreseen := by
  induction deeds with
  | nil => exact fun _ _ hmem => absurd hmem List.not_mem_nil
  | cons d rest ih =>
    intro m hm outcome hmem
    cases d with
    | outside effect => exact ih (standing_undergo hm (.outside effect)) outcome hmem
    | start events =>
      rcases List.mem_cons.1 hmem with rfl | hmem
      · obtain ⟨happened, hstarted⟩ := started_start x (hm.reschedule events).root
        exact (hstarted.foresees hchecked).answer
      · exact ih (standing_undergo hm (.start events)) outcome hmem

/-! ### The law -/

/-- Nothing goes wrong in a session that the checks rule out which the graph of a layout has
    passed. -/
structure Vetted (x : Execution) (l : Layout) (seed : Dict String Value) (deeds : List Deed) :
    Prop where
  /-- Every node is checked, at whatever depth. -/
  nodes : ∀ n ∈ Node.listing x.graph.nodes, n.Checked
  /-- What a loop looks up is a text with the mark of a reference. -/
  elements : ∀ id elements itemAs body, .loop id elements itemAs body ∈ Node.listing x.graph.nodes →
    ∃ mark rest, elements.toList = mark :: rest ∧ (mark = '@' ∨ mark = '$')
  /-- Following the links of the arena from the root is running the graph, whatever would be run
      where a link leads out of the arena. -/
  links : ∀ lost frame, Run.follow x l.nodes lost l.nodes.length frame l.root =
    Run.runNodes x frame x.graph.nodes
  /-- No action is called without a urn, or with blanks around it. -/
  calls : ∀ c ∈ (x.session seed deeds).calls, c.urn ≠ "" ∧ Text.trim c.urn = c.urn
  /-- However the starts have ended, not by a failure that is ruled out or was made by one. -/
  outcomes : ∀ outcome ∈ x.outcomes (.fresh seed) deeds, ∀ f, outcome = .error f → f.Foreseen
  /-- The same holds of every part of one more start, whatever events are to come. -/
  parts : ∀ events stage m',
    Reaches x (x.opening { x.session seed deeds with schedule := events }) stage → ∀ f,
      (stage.task.run x stage.frame).on stage.machine = (.error f, m') → f.Foreseen
  /-- No choice carries the error of a failure that is ruled out. -/
  choices : ∀ s id r, ((x.session seed deeds).store.scope s).choices.get? id = some r →
    ∀ f : Failure, f.RuledOut → r.error ≠ some f.recordText
  /-- A loop carries no error of an iteration whose failure is ruled out. -/
  loops : ∀ s id r, ((x.session seed deeds).store.scope s).loops.get? id = some r → ∀ e,
    r.error = some e → ∃ f : Failure, f.OfLoop ∧ e = f.recordText
  /-- A scope carries the message of a failure that is neither ruled out nor made by one that is,
      and no failure that is ruled out has this message. -/
  scopes : ∀ s e, ((x.session seed deeds).store.scope s).error = some e →
    (∃ f : Failure, f.Foreseen ∧ e = f.message) ∧ ∀ f : Failure, f.RuledOut → e ≠ f.message

/-- **Checks pay off.** For every graph that was built and every session, what was checked is never
    found wanting in a run. -/
theorem vetted_session {document : List Step} {ids rest : IdSource} (x : Execution)
    (h : Graph.build document ids = (.ok x.graph, rest)) (seed : Dict String Value)
    (deeds : List Deed) :
    ∃ l, Graph.layout document ids = (.ok l, rest) ∧ Vetted x l seed deeds := by
  have hchecked := Graph.checked_of_build h
  obtain ⟨l, hlayout, hl⟩ := Graph.layout_of_build h
  have hstanding := standing_session x seed deeds
  -- What happens is foreseen in every deed, hence in the whole session.
  have hcourse : ∀ o ∈ (x.session seed deeds).course, o.Foreseen :=
    session_induction (fun _ ho => absurd ho List.not_mem_nil)
      (fun _ hm hcourse d => foreseen_undergo hchecked hm hcourse d) deeds
  have hscope := hstanding.sound.foreseen hcourse
  refine ⟨l, hlayout, ?_⟩
  constructor
  case nodes => exact hchecked
  case elements =>
    intro id elements itemAs body hmem
    have hlookup : Reference.needsLookup elements = true := hchecked _ hmem
    unfold Reference.needsLookup at hlookup
    split at hlookup
    · -- The check has found a mark at the beginning of the token.
      next mark rest heq => exact ⟨mark, rest, heq, by simpa using hlookup⟩
    · cases hlookup
  case links =>
    intro lost frame
    rw [hl.nodes, hl.root]
    exact follow_root x lost frame
  case calls =>
    intro c hc
    obtain ⟨o, ho, hcall⟩ := List.mem_filterMap.1 hc
    have hforeseen := hcourse o (List.mem_reverse.2 ho)
    cases o with
    | called scope node call answer => exact Option.some.inj hcall ▸ hforeseen
    | _ => cases hcall
  case outcomes => exact foreseen_outcomes hchecked deeds (standing_fresh x.backend seed)
  case parts =>
    intro events stage m' hreaches f hrun
    obtain ⟨_, hstarted⟩ := started_start x (hstanding.reschedule events).root
    exact hreaches.foreseen hstarted.ready hchecked hrun
  case choices =>
    intro s id r hr f hf herror
    obtain ⟨g, hg, heq⟩ := (hscope s).choices id r hr _ herror
    exact hg.recordText_ne hf heq.symm
  case loops => exact fun s => (hscope s).loops
  case scopes =>
    intro s e he
    obtain ⟨g, hg, rfl⟩ := (hscope s).error e he
    exact ⟨⟨g, hg, rfl⟩, fun f hf => hg.message_ne hf⟩

/-- A run whose condition gets no value, and another one that halts within an iteration. -/
theorem vetted_nestedRun :
    Graph.build Graph.nestedSteps .fresh = (.ok nestedRun.graph, ⟨5⟩) ∧
      Vetted nestedRun Graph.nestedLayout ∅ [.start [], .start nestedEvents] := by
  obtain ⟨l, hlayout, h⟩ := vetted_session nestedRun Graph.build_nestedSteps ∅
    [.start [], .start nestedEvents]
  rw [Graph.layout_nestedSteps] at hlayout
  cases hlayout
  exact ⟨Graph.build_nestedSteps, h⟩

end Runbook
