import Mathlib.Data.List.Basic
import Runbook.Proofs.Run.Wait

namespace Runbook

/-!
# Running a graph — errors on record

A scope keeps the errors of its nodes in their records, a run tells of them in its course.  This
file makes the two the same, for courses in which a scope comes to rest once a node of it has
failed.

* `Change.node?`, `Change.failure?` — the node a change is about, and the failure it puts on record;
* `Occurrence.about?`, `Occurrence.failureIn` — the same for occurrences, with the scope;
* `Scope.errors` — the records of a scope that carry an error;
* `Rests` — after a failure in a scope nothing else is about its nodes;
* `errors_told` — the records that carry an error are the failures told of in the course, at most
  one of them.
-/

/-! ### Nodes and failures -/

namespace Change

/-- The node whose record a change is about. -/
def node? : Change → Option String
  | startAction id | recordParams id _ _ | completeAction id _ _ | failAction id _ | startChoice id
  | decideChoice id _ _ | failChoice id _ | startLoop id _ | startIteration id _ _ _ | finishLoop id
  | failLoop id _ => some id
  | publish _ | close | closeWithError _ => none

/-- The node that fails by a change, and the text on its record. -/
def failure? : Change → Option (String × String)
  | failAction id e | failChoice id e | failLoop id e => some (id, e)
  | _ => none

/-- Whether a change makes a new record of a node. -/
def starts : Change → Bool
  | startAction _ | startChoice _ | startLoop _ _ => true
  | _ => false

/-- A change that puts a failure on record is about the node that fails. -/
theorem node?_of_failure? {c : Change} {id e : String} (h : c.failure? = some (id, e)) :
    c.node? = some id := by
  cases c with
  | failAction | failChoice | failLoop => exact congrArg (Option.map Prod.fst) h
  | _ => cases h

/-- A change that starts something is about the node that starts. -/
theorem node?_of_starts {c : Change} (h : c.starts) : ∃ id, c.node? = some id := by
  cases c with
  | startAction id | startChoice id | startLoop id => exact ⟨id, rfl⟩
  | _ => cases h

end Change

namespace Occurrence

/-- The scope and the node whose record an occurrence is about. -/
def about? : Occurrence → Option (ScopeId × String)
  | changed s c => c.node?.map (s, ·)
  | called s node _ _ => some (s, node)
  | _ => none

/-- The failure that an occurrence puts on record in a scope. -/
def failureIn (scope : ScopeId) : Occurrence → Option (String × String)
  | changed s c => if s = scope then c.failure? else none
  | _ => none

/-- Whether a new record of a node is made in a scope. -/
def startsIn (scope : ScopeId) : Occurrence → Bool
  | changed s c => s == scope && c.starts
  | _ => false

/-- Whether an action is called from a scope. -/
def callsFrom (scope : ScopeId) : Occurrence → Bool
  | called s .. => s == scope
  | _ => false

/-- `node?_of_failure?` for what happened. -/
theorem about?_of_failureIn {o : Occurrence} {s : ScopeId} {id e : String}
    (h : o.failureIn s = some (id, e)) : o.about? = some (s, id) := by
  cases o with
  | changed t c =>
    by_cases ht : t = s
    · rw [failureIn, if_pos ht] at h
      rw [about?, Change.node?_of_failure? h, ht]
      rfl
    · rw [failureIn, if_neg ht] at h
      exact absurd h (by simp)
  | _ => cases h

/-- `node?_of_starts` for what happened. -/
theorem about?_of_startsIn {o : Occurrence} {s : ScopeId} (h : o.startsIn s) :
    ∃ id, o.about? = some (s, id) := by
  cases o with
  | changed t c =>
    simp only [startsIn, Bool.and_eq_true, beq_iff_eq] at h
    obtain ⟨id, hid⟩ := Change.node?_of_starts h.2
    exact ⟨id, by rw [about?, hid, h.1]; rfl⟩
  | _ => cases h

/-- A call is about the node that makes it. -/
theorem about?_of_callsFrom {o : Occurrence} {s : ScopeId} (h : o.callsFrom s) :
    ∃ id, o.about? = some (s, id) := by
  cases o with
  | called t node call answer => exact ⟨node, by rw [about?, beq_iff_eq.1 h]⟩
  | _ => cases h

/-- What comes from outside is about no node. -/
theorem about?_of_foreign {root : ScopeId} {happened : List Occurrence}
    (h : ∀ o ∈ happened, o.IsForeign root) :
    ∀ o ∈ happened, o.about? = none := by
  intro o ho
  have hforeign := h o ho
  cases o with
  | interrupted | published | cancelled => rfl
  | opened | changed | called => exact absurd hforeign fun hf => hf

/-- What is published from outside is about no node. -/
theorem about?_publication (scopes : List ScopeId) (values : Dict String Value) :
    ∀ o ∈ publication scopes values, o.about? = none := by
  intro o ho
  rw [eq_of_mem_publication ho]
  rfl

/-- The failures among the changes of a scope are the ones told of. -/
theorem filterMap_changesOf (s : ScopeId) (o : Occurrence) :
    (o.changesOf s).filterMap Change.failure? = (o.failureIn s).toList := by
  cases o with
  | changed t c =>
    by_cases ht : t = s
    · rw [changesOf, failureIn, if_pos ht, if_pos ht]
      cases hf : c.failure? <;> simp [hf]
    · rw [changesOf, failureIn, if_neg ht, if_neg ht]
      rfl
  | published scopes values =>
    refine List.filterMap_eq_nil_iff.2 fun c hc => ?_
    rw [(List.mem_replicate.1 hc).2]
    rfl
  | _ => rfl

/-- Only an occurrence about a node of a scope changes a record of the scope. -/
theorem node?_of_mem_changesOf {s : ScopeId} {o : Occurrence} (h : ∀ id, o.about? ≠ some (s, id)) :
    ∀ c ∈ o.changesOf s, c.node? = none := by
  intro c hc
  cases o with
  | changed t c' =>
    by_cases ht : t = s
    · rw [changesOf, if_pos ht, List.mem_singleton] at hc
      subst hc
      cases hnode : c.node? with
      | none => rfl
      | some id => exact absurd (by rw [about?, hnode, ht]; rfl) (h id)
    · rw [changesOf, if_neg ht] at hc
      exact absurd hc List.not_mem_nil
  | published scopes values =>
    rw [(List.mem_replicate.1 hc).2]
    rfl
  | _ => exact absurd hc List.not_mem_nil

end Occurrence

/-- Closing the root scope is about no node, and it is no failure of one. -/
theorem Outcome.closing_of (outcome : Outcome) :
    outcome.closing.failure? = none ∧ outcome.closing.node? = none := by
  cases outcome <;> exact ⟨rfl, rfl⟩

/-! ### Records that carry an error -/

namespace Scope

/-- The nodes whose records carry an error, each with the error. -/
def errors (s : Scope) : List (String × String) :=
  s.actions.faults ActionRecord.error ++ s.choices.faults ChoiceRecord.error ++
    s.loops.faults LoopRecord.error

/-- A change that is about no node leaves the records alone. -/
theorem errors_apply_of_node? (s : Scope) {c : Change} (h : c.node? = none) :
    (s.apply c).errors = s.errors := by
  cases c with
  | publish | close | closeWithError => rfl
  | _ => cases h

/-- Freezing a record keeps its error. -/
theorem error_freeze (r : LoopRecord) : r.freeze.error = r.error := by
  unfold LoopRecord.freeze
  cases r.current <;> rfl

section

variable {s : Scope} (h : s.errors = []) (id : String) (answer : Option String)

include h

/-- Where no record carries an error, only that of the changed action can. -/
theorem errors_updateAction {f : ActionRecord → ActionRecord}
    (hf : ∀ r, r.error = none → (f r).error = answer) :
    (s.updateAction id f).errors = (answer.map fun e => (id, e)).toList := by
  obtain ⟨⟨ha, hc⟩, hl⟩ := by simpa only [errors, List.append_eq_nil_iff] using h
  show (s.actions.update id {} f).faults _ ++ s.choices.faults _ ++ s.loops.faults _ = _
  rw [Dict.faults_update ha id rfl hf, hc, hl, List.append_nil, List.append_nil]

/-- `errors_updateAction` for choices. -/
theorem errors_updateChoice {f : ChoiceRecord → ChoiceRecord}
    (hf : ∀ r, r.error = none → (f r).error = answer) :
    (s.updateChoice id f).errors = (answer.map fun e => (id, e)).toList := by
  obtain ⟨⟨ha, hc⟩, hl⟩ := by simpa only [errors, List.append_eq_nil_iff] using h
  show s.actions.faults _ ++ (s.choices.update id {} f).faults _ ++ s.loops.faults _ = _
  rw [Dict.faults_update hc id rfl hf, ha, hl, List.nil_append, List.append_nil]

/-- `errors_updateAction` for loops. -/
theorem errors_updateLoop {f : LoopRecord → LoopRecord}
    (hf : ∀ r, r.error = none → (f r).error = answer) :
    (s.updateLoop id f).errors = (answer.map fun e => (id, e)).toList := by
  obtain ⟨⟨ha, hc⟩, hl⟩ := by simpa only [errors, List.append_eq_nil_iff] using h
  show s.actions.faults _ ++ s.choices.faults _ ++ (s.loops.update id _ f).faults _ = _
  rw [Dict.faults_update hl id rfl hf, ha, hc, List.nil_append, List.nil_append]

end

/-- **Errors.** Where no record carries an error, a change adds the failure it puts on record. -/
theorem errors_apply {s : Scope} (h : s.errors = []) (c : Change) :
    (s.apply c).errors = c.failure?.toList := by
  cases c with
  | startAction id => exact errors_updateAction h id none (f := fun _ => _) fun _ _ => rfl
  | recordParams id | completeAction id => exact errors_updateAction h id none fun _ hr => hr
  | failAction id e => exact errors_updateAction h id (some e) fun _ _ => rfl
  | startChoice id => exact errors_updateChoice h id none (f := fun _ => _) fun _ _ => rfl
  | decideChoice id => exact errors_updateChoice h id none fun _ hr => hr
  | failChoice id e => exact errors_updateChoice h id (some e) fun _ _ => rfl
  | startLoop id => exact errors_updateLoop h id none (f := fun _ => _) fun _ _ => rfl
  | startIteration id =>
    exact errors_updateLoop h id none fun r hr => (error_freeze r).trans hr
  | finishLoop id =>
    show Scope.errors (if s.loops.contains id then _ else s) = []
    by_cases hid : s.loops.contains id
    · rw [if_pos hid]
      exact errors_updateLoop h id none fun r hr => (error_freeze r).trans hr
    · rw [if_neg hid, h]
  | failLoop id e => exact errors_updateLoop h id (some e) fun _ _ => rfl
  | publish | close | closeWithError => rw [errors_apply_of_node? s rfl, h]; rfl

/-- Changes that are about no node leave all errors as they are. -/
theorem errors_foldl_of_node? (cs : List Change) (s : Scope) (h : ∀ c ∈ cs, c.node? = none) :
    (cs.foldl Scope.apply s).errors = s.errors := by
  induction cs generalizing s with
  | nil => rfl
  | cons c rest ih =>
    rw [List.foldl_cons, ih _ fun d hd => h d (List.mem_cons_of_mem _ hd),
      errors_apply_of_node? s (h c List.mem_cons_self)]

/-- Changes of which none is about a node once a node has failed. -/
theorem errors_foldl (cs : List Change) (s : Scope) (h : s.errors = [])
    (hrest : cs.Pairwise fun c d => c.failure? ≠ none → d.node? = none) :
    (cs.foldl Scope.apply s).errors = cs.filterMap Change.failure? ∧
      (cs.filterMap Change.failure?).length ≤ 1 := by
  induction cs generalizing s with
  | nil => exact ⟨h, Nat.zero_le _⟩
  | cons c rest ih =>
    -- The first failure is the last change about a node, so it decides the errors.
    obtain ⟨hc, hrest⟩ := List.pairwise_cons.1 hrest
    have happly := errors_apply h c
    rw [List.foldl_cons]
    cases hfail : c.failure? with
    | none =>
      rw [List.filterMap_cons_none hfail]
      exact ih _ (by rw [happly, hfail]; rfl) hrest
    | some e =>
      -- From here on the errors stay as they are.
      have hquiet : ∀ d ∈ rest, d.node? = none := fun d hd => hc d hd (by simp [hfail])
      have hnone : rest.filterMap Change.failure? = [] :=
        List.filterMap_eq_nil_iff.2 fun d hd => by
          cases hd' : d.failure? with
          | none => rfl
          | some e => exact absurd (hquiet d hd) (by rw [Change.node?_of_failure? hd']; simp)
      rw [List.filterMap_cons_some hfail, hnone, errors_foldl_of_node? _ _ hquiet, happly, hfail]
      exact ⟨rfl, Nat.le_refl _⟩

end Scope

/-! ### Scopes that come to rest -/

/-- After a failure in a scope nothing is about a node of the scope. -/
def Rests (earlier later : Occurrence) : Prop :=
  ∀ s e, earlier.failureIn s = some e → ∀ id, later.about? ≠ some (s, id)

/-- **Errors on record.** In a course in which scopes come to rest, the records that carry an error
    are the failures told of. -/
theorem errors_told {course : List Occurrence} (h : course.Pairwise Rests)
    (seed : Dict String Value) (s : ScopeId) :
    (Scope.told seed course s).errors = course.filterMap (Occurrence.failureIn s) ∧
      (course.filterMap (Occurrence.failureIn s)).length ≤ 1 := by
  have hfailures : (course.flatMap (Occurrence.changesOf s)).filterMap Change.failure? =
      course.filterMap (Occurrence.failureIn s) := by
    rw [List.filterMap_flatMap, funext (Occurrence.filterMap_changesOf s),
      List.filterMap_eq_flatMap_toList]
  -- All is now about the changes of the scope, one after the other.
  rw [← hfailures]
  refine Scope.errors_foldl _ _ ?_ (List.pairwise_flatMap.2 ⟨fun o _ => ?_, h.imp ?_⟩)
  · unfold Scope.initial
    by_cases hs : s = 0
    · rw [if_pos hs]
      rfl
    · rw [if_neg hs]
      rfl
  · cases o with
    | changed t c =>
      by_cases ht : t = s
      · rw [Occurrence.changesOf, if_pos ht]
        exact List.pairwise_singleton _ _
      · rw [Occurrence.changesOf, if_neg ht]
        exact .nil
    | published =>
    exact List.pairwise_replicate.2 (.inr fun hfail => absurd rfl hfail)
    | _ => exact .nil
  · intro o o' hrests c hc d hd hfail
    obtain ⟨e, he⟩ := Option.ne_none_iff_exists'.1 hfail
    have hmem : e ∈ (o.failureIn s).toList := by
      rw [← Occurrence.filterMap_changesOf]
      exact List.mem_filterMap.2 ⟨c, hc, he⟩
    exact Occurrence.node?_of_mem_changesOf (hrests s e (Option.mem_toList.1 hmem)) d hd

end Runbook
