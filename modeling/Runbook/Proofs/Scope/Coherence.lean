import Runbook.Proofs.Run.Errors

namespace Runbook

/-!
# Scopes — what records say, whatever is done to them

The changes of a scope may be made in any order and for any nodes, by a run or by other parties.
This file says what can be relied on all the same.

* `Scope.Coherent` — the parts of each record fit together: nothing is on record of a node that is
  not done, and a node that is done without error has what it was run for.  Every change keeps this
  (`Scope.Coherent.apply`);
* `Dict.exists_update` — a record with an error still has one after any change but a new start;
* `Scope.FailedAction` — an action with an error shows none of its outputs;
* `reliable_foldl` — the law for all sequences of changes.
-/

/-! ### Records whose parts fit together -/

/-- The parts of the record of an action fit together. -/
structure ActionRecord.Coherent (r : ActionRecord) : Prop where
  atRest : r.done = true → r.waiting = false
  unfinished : r.done = false → r.error = none ∧ r.result = none
  finished : r.done = true → r.error = none → r.result.isSome

/-- The parts of the record of a choice fit together. -/
structure ChoiceRecord.Coherent (r : ChoiceRecord) : Prop where
  unfinished : r.done = false → r.error = none ∧ r.outcome = none ∧ r.used = ∅
  finished : r.done = true → r.error = none → r.outcome.isSome

/-- The parts of the record of a loop fit together. -/
structure LoopRecord.Coherent (r : LoopRecord) : Prop where
  atRest : r.done = true → r.waiting = false
  unfinished : r.done = false → r.error = none

/-- Moving an iteration into the history changes nothing else. -/
theorem LoopRecord.exists_freeze (r : LoopRecord) :
    ∃ history, r.freeze = { r with history := history } := by
  unfold freeze
  split
  · exact ⟨_, rfl⟩
  · exact ⟨r.history, rfl⟩

/-- The current iteration takes its place in the history. -/
theorem LoopRecord.Coherent.freeze {r : LoopRecord} (h : r.Coherent) : r.freeze.Coherent := by
  obtain ⟨history, hfreeze⟩ := r.exists_freeze
  rw [hfreeze]
  exact ⟨h.atRest, h.unfinished⟩

namespace Scope

/-- The parts of every record of a scope fit together. -/
structure Coherent (s : Scope) : Prop where
  actions : ∀ id r, s.actions.get? id = some r → r.Coherent
  choices : ∀ id r, s.choices.get? id = some r → r.Coherent
  loops : ∀ id r, s.loops.get? id = some r → r.Coherent

namespace Coherent

variable {s : Scope}

/-- Nothing is on record in a scope that was just opened. -/
theorem of_seed (seed : Dict String Value) : Coherent { seed := seed } where
  actions id r hr := by cases hr
  choices id r hr := by cases hr
  loops id r hr := by cases hr

/-- A change of one action's record that keeps it coherent. -/
theorem updateAction (h : s.Coherent) (id : String) {f : ActionRecord → ActionRecord}
    (hf : ∀ r : ActionRecord, r.Coherent → (f r).Coherent) : (s.updateAction id f).Coherent :=
  have hblank : ActionRecord.Coherent {} :=
    ⟨fun _ => rfl, fun _ => ⟨rfl, rfl⟩, nofun⟩
  ⟨Dict.forall_update h.actions id hblank hf, h.choices, h.loops⟩

/-- A change of one choice's record that keeps it coherent. -/
theorem updateChoice (h : s.Coherent) (id : String) {f : ChoiceRecord → ChoiceRecord}
    (hf : ∀ r : ChoiceRecord, r.Coherent → (f r).Coherent) : (s.updateChoice id f).Coherent :=
  have hblank : ChoiceRecord.Coherent {} :=
    ⟨fun _ => ⟨rfl, rfl, rfl⟩, nofun⟩
  ⟨h.actions, Dict.forall_update h.choices id hblank hf, h.loops⟩

/-- A change of one loop's record that keeps it coherent. -/
theorem updateLoop (h : s.Coherent) (id : String) {f : LoopRecord → LoopRecord}
    (hf : ∀ r : LoopRecord, r.Coherent → (f r).Coherent) : (s.updateLoop id f).Coherent :=
  have hblank : LoopRecord.Coherent { waiting := false } := ⟨fun _ => rfl, fun _ => rfl⟩
  ⟨h.actions, h.choices, Dict.forall_update h.loops id hblank hf⟩

/-- **Coherence.** Every change keeps the records coherent. -/
theorem apply (h : s.Coherent) (c : Change) : (s.apply c).Coherent := by
  have hpublish : ∀ (t : Scope) (values : Dict String Value), t.Coherent →
      (t.addExports values).Coherent := fun t values ht => ⟨ht.actions, ht.choices, ht.loops⟩
  -- The version is no part of a record.
  suffices hchange : (s.change c).Coherent from ⟨hchange.actions, hchange.choices, hchange.loops⟩
  cases c with
  | startAction id =>
    have hstarted : ActionRecord.Coherent { waiting := true } :=
      ⟨nofun, fun _ => ⟨rfl, rfl⟩, nofun⟩
    exact ⟨Dict.forall_insert h.actions id hstarted, h.choices, h.loops⟩
  | recordParams id values all =>
    refine h.updateAction id fun r hr => ⟨fun hdone => ?_, hr.unfinished, hr.finished⟩
    show (r.waiting && !all) = false
    rw [hr.atRest hdone]
    rfl
  | completeAction id result exports =>
    refine hpublish _ _ (h.updateAction id fun r hr => ⟨fun _ => rfl, ?_, fun _ _ => rfl⟩)
    exact nofun
  | failAction id e =>
    exact h.updateAction id fun r hr =>
      ⟨fun _ => rfl, nofun, fun _ => nofun⟩
  | startChoice id =>
    have hstarted : ChoiceRecord.Coherent {} :=
      ⟨fun _ => ⟨rfl, rfl, rfl⟩, nofun⟩
    exact ⟨h.actions, Dict.forall_insert h.choices id hstarted, h.loops⟩
  | decideChoice id outcome used =>
    exact h.updateChoice id fun r hr => ⟨nofun, fun _ _ => rfl⟩
  | failChoice id e =>
    exact h.updateChoice id fun r hr =>
      ⟨nofun, fun _ => nofun⟩
  | startLoop id waiting =>
    have hstarted : LoopRecord.Coherent { waiting := waiting } :=
      ⟨nofun, fun _ => rfl⟩
    exact ⟨h.actions, h.choices, Dict.forall_insert h.loops id hstarted⟩
  | startIteration id index value child =>
    exact h.updateLoop id fun r hr => ⟨fun _ => rfl, hr.freeze.unfinished⟩
  | finishLoop id =>
    show Coherent (if s.loops.contains id then _ else s)
    by_cases hid : s.loops.contains id
    · rw [if_pos hid]
      exact h.updateLoop id fun r hr => ⟨fun _ => rfl, nofun⟩
    · rwa [if_neg hid]
  | failLoop id e =>
    exact h.updateLoop id fun r hr => ⟨fun _ => rfl, nofun⟩
  | publish values => exact hpublish s values h
  | close | closeWithError => exact ⟨h.actions, h.choices, h.loops⟩

end Coherent

/-! ### Errors that stay -/

variable {s : Scope} {id : String}

/-- An action keeps an error until it is started anew, even if it is completed in between. -/
theorem actionError_apply (h : ∃ r, s.actions.get? id = some r ∧ r.error.isSome) {c : Change}
    (hc : c ≠ .startAction id) : ∃ r, (s.apply c).actions.get? id = some r ∧ r.error.isSome := by
  cases c with
  | startAction id' => exact Dict.exists_insert_of_ne h (fun heq => hc (heq ▸ rfl)) _
  | recordParams id' | completeAction id' => exact Dict.exists_update h id' _ fun r hr => hr
  | failAction id' e => exact Dict.exists_update h id' _ fun r _ => rfl
  | finishLoop id' =>
    obtain ⟨loops, hloops⟩ := s.change_finishLoop id'
    show ∃ r, (s.change (.finishLoop id')).actions.get? id = some r ∧ _
    rwa [hloops]
  | _ => exact h

/-- A choice keeps an error until it is started anew, even if it is decided in between. -/
theorem choiceError_apply (h : ∃ r, s.choices.get? id = some r ∧ r.error.isSome) {c : Change}
    (hc : c ≠ .startChoice id) : ∃ r, (s.apply c).choices.get? id = some r ∧ r.error.isSome := by
  cases c with
  | startChoice id' => exact Dict.exists_insert_of_ne h (fun heq => hc (heq ▸ rfl)) _
  | decideChoice id' => exact Dict.exists_update h id' _ fun r hr => hr
  | failChoice id' e => exact Dict.exists_update h id' _ fun r _ => rfl
  | finishLoop id' =>
    obtain ⟨loops, hloops⟩ := s.change_finishLoop id'
    show ∃ r, (s.change (.finishLoop id')).choices.get? id = some r ∧ _
    rwa [hloops]
  | _ => exact h

/-- A loop keeps an error until it is started anew, even if it goes on or is finished in between. -/
theorem loopError_apply (h : ∃ r, s.loops.get? id = some r ∧ r.error.isSome) {c : Change}
    (hc : ∀ waiting, c ≠ .startLoop id waiting) :
    ∃ r, (s.apply c).loops.get? id = some r ∧ r.error.isSome := by
  have hfreeze : ∀ r : LoopRecord, r.error.isSome → r.freeze.error.isSome := fun r hr => by
    rwa [error_freeze]
  cases c with
  | startLoop id' waiting =>
    exact Dict.exists_insert_of_ne h (fun heq => hc waiting (heq ▸ rfl)) _
  | startIteration id' => exact Dict.exists_update h id' _ hfreeze
  | finishLoop id' =>
    show ∃ r, (if s.loops.contains id' then _ else s).loops.get? id = some r ∧ _
    by_cases hid : s.loops.contains id'
    · rw [if_pos hid]
      exact Dict.exists_update h id' _ hfreeze
    · rwa [if_neg hid]
  | failLoop id' e => exact Dict.exists_update h id' _ fun r _ => rfl
  | _ => exact h

/-! ### Outputs of actions -/

/-- An output of a node is found only where its action is done without error. -/
theorem succeeded_of_lookup {token : String} {field : OutputField} {v : Value}
    (hparse : Reference.parse? token = some (.output id field)) (hv : s.lookup token = some v) :
    ∃ r result, s.actions.get? id = some r ∧ r.succeeded = true ∧ r.result = some result := by
  have hfound : ∃ result, s.resultOf? id = some result := by
    rw [lookup, hparse, Option.bind_some] at hv
    cases field with
    | raw =>
      obtain ⟨result, hresult, -⟩ := Option.map_eq_some_iff.1 hv
      exact ⟨result, hresult⟩
    | named name =>
      obtain ⟨text, htext, -⟩ := Option.map_eq_some_iff.1 hv
      obtain ⟨result, hresult, -⟩ := Option.bind_eq_some_iff.1 htext
      exact ⟨result, hresult⟩
  obtain ⟨result, hresult⟩ := hfound
  obtain ⟨r, hr, hrecorded⟩ := Option.bind_eq_some_iff.1 hresult
  obtain ⟨hget, hsucceeded⟩ := Option.filter_eq_some_iff.1 hr
  exact ⟨r, result, hget, hsucceeded, hrecorded⟩

/-- The action of a node is on record with an error, and none of its outputs is found. -/
structure FailedAction (s : Scope) (id : String) : Prop where
  record : ∃ r, s.actions.get? id = some r ∧ r.error.isSome ∧ r.succeeded = false
  output : ∀ name, s.output? id name = none
  lookup : ∀ token field, Reference.parse? token = some (.output id field) →
    s.lookup token = none

/-- An error on the record of an action is a failed action. -/
theorem FailedAction.of_error (h : ∃ r, s.actions.get? id = some r ∧ r.error.isSome) :
    s.FailedAction id := by
  obtain ⟨r, hr, herror⟩ := h
  have hsucceeded : r.succeeded = false := by
    rw [ActionRecord.succeeded, Option.isNone_eq_false_iff.2 herror, Bool.and_false]
  have hresult : s.resultOf? id = none := by
    rw [resultOf?, hr, Option.filter_some, hsucceeded]
    rfl
  refine ⟨⟨r, hr, herror, hsucceeded⟩, fun name => by rw [output?, hresult]; rfl, ?_⟩
  intro token field hparse
  refine Option.eq_none_iff_forall_ne_some.2 fun v hv => ?_
  obtain ⟨r', -, hr', hsucceeded', -⟩ := succeeded_of_lookup hparse hv
  rw [hr, Option.some.injEq] at hr'
  rw [← hr', hsucceeded] at hsucceeded'
  cases hsucceeded'

/-! ### All sequences of changes -/

/-- What can be relied on in a scope, whatever is done to it from then on. -/
structure Reliable (s : Scope) : Prop where
  coherent : s.Coherent
  /-- The outputs of a node are those of its action alone. -/
  outputs : ∀ token id field v, Reference.parse? token = some (.output id field) →
    s.lookup token = some v →
      ∃ r result, s.actions.get? id = some r ∧ r.succeeded = true ∧ r.result = some result
  failedAction : ∀ id r, s.actions.get? id = some r → r.error.isSome →
    ∀ later : List Change, .startAction id ∉ later → (later.foldl Scope.apply s).FailedAction id
  failedChoice : ∀ id r, s.choices.get? id = some r → r.error.isSome →
    ∀ later : List Change, .startChoice id ∉ later →
      ∃ r', (later.foldl Scope.apply s).choices.get? id = some r' ∧ r'.error.isSome
  failedLoop : ∀ id r, s.loops.get? id = some r → r.error.isSome →
    ∀ later : List Change, (∀ waiting, .startLoop id waiting ∉ later) →
      ∃ r', (later.foldl Scope.apply s).loops.get? id = some r' ∧ r'.error.isSome

/-- **Records.** A scope can be relied on after all sequences of changes. -/
theorem reliable_foldl (seed : Dict String Value) (changes : List Change) :
    (changes.foldl Scope.apply { seed := seed }).Reliable := by
  have hcoherent : (changes.foldl Scope.apply { seed := seed }).Coherent :=
    List.foldlRecOn changes Scope.apply (.of_seed seed) fun _ h c _ => h.apply c
  generalize changes.foldl Scope.apply { seed := seed } = s at hcoherent
  constructor
  case coherent => exact hcoherent
  case outputs => exact fun token id field v hparse hv => succeeded_of_lookup hparse hv
  case failedAction =>
    intro id r hr herror later hlater
    have hkept : ∃ r', (later.foldl Scope.apply s).actions.get? id = some r' ∧ r'.error.isSome :=
      List.foldlRecOn (motive := fun t => ∃ r', t.actions.get? id = some r' ∧ r'.error.isSome)
        later Scope.apply ⟨r, hr, herror⟩ fun _ h c hc =>
          actionError_apply h fun heq => hlater (heq ▸ hc)
    exact .of_error hkept
  case failedChoice =>
    intro id r hr herror later hlater
    exact List.foldlRecOn
      (motive := fun t => ∃ r', t.choices.get? id = some r' ∧ r'.error.isSome)
      later Scope.apply ⟨r, hr, herror⟩ fun _ h c hc =>
        choiceError_apply h fun heq => hlater (heq ▸ hc)
  case failedLoop =>
    intro id r hr herror later hlater
    exact List.foldlRecOn
      (motive := fun t => ∃ r', t.loops.get? id = some r' ∧ r'.error.isSome)
      later Scope.apply ⟨r, hr, herror⟩ fun _ h c hc =>
        loopError_apply h fun waiting heq => hlater waiting (heq ▸ hc)

/-- An action that has failed stays failed when it is completed later. -/
example : ([Change.failAction "a" "down", .completeAction "a" { raw := "late" } ∅].foldl
    Scope.apply {}).lookup "@node:a$raw" = none := by decide

end Scope

end Runbook
