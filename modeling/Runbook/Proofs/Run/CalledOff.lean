import Runbook.Proofs.Run.Histories
import Runbook.Proofs.Run.OneTree

namespace Runbook

/-!
# Running a graph — cancelling in a call

An action that was called gets its answer even if the run is cancelled meanwhile.  It ends as it
would have ended otherwise, but then nothing begins any more: no node, no call and no iteration.

* `Occurrence.Idle` — what may still happen after the run is cancelled;
* `CalledOff` — a stretch in which the tree is cancelled while an action is called;
* `Acts.calledOff` — that is how an action goes on if it was not cancelled as it waited;
* `Exec.givesUp_of_isCancelled` — on a cancelled tree, loops give up and nothing else happens;
* `CalledOff.split` — where in such a stretch the tree was cancelled.
-/

variable {x : Execution} {frame : Frame} {m m₁ m' : Machine} {happened : List Occurrence}
  {events : List Event}

/-! ### What may still happen -/

/-- The run is not cancelled by it, and neither a call nor a node nor an iteration begins. -/
structure Occurrence.Idle (o : Occurrence) : Prop where
  ne_cancelled : o ≠ .cancelled
  call?_eq : o.call? = none
  startsIn_eq : ∀ s, o.startsIn s = false
  child?_eq : o.child? = none

/-- A node gives up because the run is cancelled. -/
def Occurrence.GivesUp (o : Occurrence) : Prop :=
  ∃ s c id, o = .changed s c ∧ c.failure? = some (id, Failure.cancelled.message)

namespace Occurrence

/-- A change of a scope is idle unless it makes a record anew or begins an iteration. -/
theorem idle_changed {c : Change} {s : ScopeId} (hstarts : c.starts = false)
    (hchild : (changed s c).child? = none) : (changed s c).Idle :=
  ⟨nofun, rfl, fun t => by rw [startsIn, hstarts, Bool.and_false], hchild⟩

/-- A change that starts nothing is idle. -/
theorem idle_singleton {c : Change} {s : ScopeId} (hstarts : c.starts = false)
    (hchild : (changed s c).child? = none) : ∀ o ∈ [changed s c], o.Idle := by
  intro o ho
  rw [List.mem_singleton.1 ho]
  exact idle_changed hstarts hchild

/-- Giving up begins nothing. -/
theorem GivesUp.idle {o : Occurrence} (h : o.GivesUp) : o.Idle := by
  obtain ⟨s, c, id, rfl, hc⟩ := h
  cases c with
  | failAction | failChoice | failLoop => exact idle_changed rfl rfl
  | _ => cases hc

/-- Publishing begins nothing. -/
theorem idle_publication {scopes : List ScopeId} {values : Dict String Value} :
    ∀ o ∈ publication scopes values, o.Idle := by
  intro o ho
  rw [eq_of_mem_publication ho]
  exact ⟨nofun, rfl, fun _ => rfl, rfl⟩

end Occurrence

/-- No node runs on a cancelled tree. -/
theorem Exec.eq_nil_of_isCancelled {list : List Node} {outcome : Outcome}
    (h : Exec x frame (.nodes list) m happened outcome m')
    (hc : frame.stack.isCancelled m.store = true) : happened = [] := by
  cases h with
  | nil | stopped => rfl
  | failed hrunning | cons hrunning => exact absurd (hc.symm.trans hrunning) nofun

/-- No iteration begins on a cancelled tree: the loop gives up if there is one left. -/
theorem Exec.givesUp_of_isCancelled {id : String} {itemAs : Option String} {body : List Node}
    {index : Nat} {values : List Value} {outcome : Outcome}
    (h : Exec x frame (.rounds id itemAs body index values) m happened outcome m')
    (hc : frame.stack.isCancelled m.store = true) : ∀ o ∈ happened, o.GivesUp := by
  cases h with
  | noRounds => exact fun o ho => absurd ho List.not_mem_nil
  | lastRound hround =>
    cases hround with
    | refused =>
      intro o ho
      rw [List.mem_singleton.1 ho]
      exact ⟨_, _, _, rfl, rfl⟩
    | halted hrunning | interrupted hrunning => exact absurd (hc.symm.trans hrunning) nofun
  | nextRound hround =>
    cases hround with
    | completed hrunning | passed hrunning => exact absurd (hc.symm.trans hrunning) nofun

/-! ### Calls in which the tree is cancelled -/

/-- How a stretch goes on in which the tree is cancelled while an action is called: events that were
    meant for the call have done so, and nothing begins after the call. -/
inductive CalledOff (events : List Event) (happened : List Occurrence) : Prop
  | intro {earlier later : List Occurrence} {s : ScopeId} {site : Site} {call : ActionCall}
      {answer : Except ActionError ActionResult} {effects : List Effect}
      (split : happened = earlier ++
        (.called s site.node call answer :: effects.flatMap (Effect.happens 0)) ++ later)
      (once : .cancelled ∉ earlier)
      (meant : ∀ e ∈ effects, ⟨.callAt site, e⟩ ∈ events)
      (cancels : .cancel ∈ effects)
      (idle : ∀ o ∈ later, o.Idle) : CalledOff events happened

namespace CalledOff

variable {before after : List Occurrence}

/-- A stretch before. -/
theorem prepend (h : CalledOff events happened) (hbefore : .cancelled ∉ before) :
    CalledOff events (before ++ happened) := by
  obtain ⟨rfl, once, meant, cancels, idle⟩ := h
  rw [List.append_assoc, ← List.append_assoc before, ← List.append_assoc]
  exact .intro rfl (fun hmem => (List.mem_append.1 hmem).elim hbefore once) meant cancels idle

/-- A stretch after, in which nothing begins. -/
theorem append (h : CalledOff events happened) (hafter : ∀ o ∈ after, o.Idle) :
    CalledOff events (happened ++ after) := by
  obtain ⟨rfl, once, meant, cancels, idle⟩ := h
  exact .intro (List.append_assoc ..) once meant cancels fun o ho =>
    (List.mem_append.1 ho).elim (idle o) (hafter o)

end CalledOff

/-- Only `Effect.cancel` cancels. -/
theorem Effect.eq_cancel {root : ScopeId} {e : Effect} (h : .cancelled ∈ e.happens root) :
    e = .cancel := by
  cases e with
  | publish => exact absurd (Occurrence.eq_of_mem_publication h) nofun
  | cancel => rfl

/-- **Calls.** A call in which the tree is cancelled goes on to its end. -/
theorem Called.calledOff {id : String} {c : ActionCall} {answer : Except ActionError ActionResult}
    {heard : List Occurrence} (h : Called x frame id c m answer heard m')
    (hroot : m.root < m.store.size) (hzero : m.root = 0) (hevents : m.schedule ⊆ events)
    (hc : .cancelled ∈ heard) : CalledOff events ([.called frame.top id c answer] ++ heard) := by
  obtain ⟨-, effects, hmeant, rfl⟩ := h.extends_effects hroot
  obtain ⟨e, he, hmem⟩ := List.mem_flatMap.1 hc
  rw [Effect.eq_cancel hmem] at he
  rw [hzero]
  have hsplit : [Occurrence.called frame.top id c answer] ++ effects.flatMap (Effect.happens 0) =
      [] ++ (.called frame.top (Site.mk id frame.path).node c answer ::
        effects.flatMap (Effect.happens 0)) ++ [] := (List.append_nil _).symm
  exact .intro hsplit List.not_mem_nil (fun e he => hevents (hmeant e he)) he
    fun o ho => absurd ho List.not_mem_nil

/-- An action in whose call the tree is cancelled, `closing` being how the action ends. -/
theorem Awaited.calledOff {id urn : String} {params : Dict String String} {limit : Nat}
    {values : List Value} {waited heard closing : List Occurrence}
    {answer : Except ActionError ActionResult} {seed : Dict String Value} (hm : m.Ready frame)
    (hregular : m.Regular events) (hsound : m.Sound x.backend seed)
    (hw : Awaited frame id limit (referencesOf params.entries)
      (m.change frame.top (.startAction id)) waited (.ok values) m₁)
    (hcall : Called x frame id ⟨urn, inputsOf params values⟩
      (m₁.change frame.top (.recordParams id (inputsOf params values) true)) answer heard m')
    (hbefore : .cancelled ∉ [.changed frame.top (.startAction id)] ++ waited)
    (hc : .cancelled ∈ heard) (hclosing : ∀ o ∈ closing, o.Idle) :
    CalledOff events ([.changed frame.top (.startAction id)] ++ waited ++
      [.changed frame.top (.recordParams id (inputsOf params values) true)] ++
      ([.called frame.top id ⟨urn, inputsOf params values⟩ answer] ++ heard) ++ closing) := by
  have hkept := Machine.kept_regular events
  have hext := (hw.extends_after x.backend hm).andChange hm
    (.recordParams id (inputsOf params values) true)
  have hparams := hkept.change (hkept.awaited (hkept.change hregular _ _) hw) frame.top
    (.recordParams id (inputsOf params values) true)
  have hoff := hcall.calledOff (hext.ready hm).root (hext.sound seed hsound).root hparams.schedule
    hc
  exact (hoff.prepend (by simpa using hbefore)).append hclosing

/-! ### Where the tree is cancelled -/

/-- Something that happens in the middle of a stretch only. -/
theorem middle_split {α : Type} {a : α} {before mid after earlier later : List α}
    (h : before ++ mid ++ after = earlier ++ a :: later) (hbefore : a ∉ before)
    (hafter : a ∉ after) : ∃ left right, earlier = before ++ left ∧ mid = left ++ a :: right ∧
      later = right ++ after := by
  rcases List.append_eq_append_iff.1 h with ⟨c, -, rfl⟩ | ⟨c, hmid, hlater⟩
  · exact absurd (List.mem_append_right _ List.mem_cons_self) hafter
  rcases List.cons_eq_append_iff.1 hlater with ⟨rfl, rfl⟩ | ⟨right, rfl, rfl⟩
  · exact absurd List.mem_cons_self hafter
  rcases List.append_eq_append_iff.1 hmid with ⟨left, rfl, rfl⟩ | ⟨c, rfl, hleft⟩
  · exact ⟨left, right, rfl, rfl, rfl⟩
  · rcases List.cons_eq_append_iff.1 hleft with ⟨rfl, rfl⟩ | ⟨c', rfl, -⟩
    · exact ⟨[], right, by simp, rfl, rfl⟩
    · exact absurd (List.mem_append_right _ List.mem_cons_self) hbefore

/-- What is done by events that were meant for a call. -/
theorem Effect.eq_of_mem_happens {root : ScopeId} {o : Occurrence} {effects : List Effect}
    (h : o ∈ effects.flatMap (Effect.happens root)) :
    o = .cancelled ∨ ∃ values, o = .published [root] values := by
  obtain ⟨e, -, hmem⟩ := List.mem_flatMap.1 h
  cases e with
  | publish values => exact .inr ⟨values, Occurrence.eq_of_mem_publication hmem⟩
  | cancel => exact .inl (List.mem_singleton.1 hmem)

/-- **Cancelling in a call.** Every time the tree is cancelled in such a stretch, nothing but the
    doing of events stands between this and a call, and nothing begins later. -/
theorem CalledOff.split {earlier later : List Occurrence} (h : CalledOff events happened)
    (hsplit : happened = earlier ++ .cancelled :: later) :
    (∃ before s site call answer heard, ⟨.callAt site, .cancel⟩ ∈ events ∧
      earlier = before ++ .called s site.node call answer :: heard ∧
      ∀ o ∈ heard, o = .cancelled ∨ ∃ values, o = .published [0] values) ∧
    ∀ o ∈ later, o.call? = none ∧ (∀ t, o.startsIn t = false) ∧ o.child? = none := by
  obtain ⟨rfl, once, meant, cancels, idle⟩ := h
  rename_i before rest s site call answer effects
  obtain ⟨left, right, rfl, hmid, rfl⟩ :=
    middle_split hsplit once fun hmem => (idle _ hmem).ne_cancelled rfl
  rcases List.cons_eq_append_iff.1 hmid with ⟨-, hcalled⟩ | ⟨heard, rfl, hheard⟩
  · cases hcalled
  have hmem : ∀ o ∈ heard ++ .cancelled :: right, o = .cancelled ∨
      ∃ values, o = .published [0] values := fun o ho => Effect.eq_of_mem_happens (hheard ▸ ho)
  refine ⟨⟨before, s, site, call, answer, heard, meant _ cancels, rfl, fun o ho =>
    hmem o (List.mem_append_left _ ho)⟩, fun o ho => ?_⟩
  rcases List.mem_append.1 ho with ho | ho
  · rcases hmem o (List.mem_append_right _ (List.mem_cons_of_mem _ ho)) with rfl | ⟨values, rfl⟩
    · exact ⟨rfl, fun _ => rfl, rfl⟩
    · exact ⟨rfl, fun _ => rfl, rfl⟩
  · exact ⟨(idle o ho).call?_eq, (idle o ho).startsIn_eq, (idle o ho).child?_eq⟩

end Runbook
