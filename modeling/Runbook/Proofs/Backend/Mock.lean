import Mathlib.Data.List.Basic
import Runbook.Backend.Mock
import Runbook.Proofs.Dict

namespace Runbook

/-!
# Canned answers — which scenario a call is answered by

Of the entries of an urn the last one counts, and of its scenarios the first one that matches.  So
an answer is told by that entry, and of the inputs of a call only by the values that its scenarios
declare.

* `Scenario.accepts_iff` — a scenario matches by the values that it declares;
* `Scenario.accepts_congr` — inputs that agree on these, a missing one being empty, are the same to
  it;
* `Mock.get?_ofEntries` — the entry of an urn is the last one;
* `Mock.execute_congr` — an answer depends on the last entry and on what its scenarios name;
* `Mock.laws_execute` — how calls are answered.
-/

namespace Scenario

/-- A scenario matches the inputs of a call. -/
def Matches (s : Scenario) (inputs : Dict String String) : Prop :=
  ∀ k v, s.input.get? k = some v → v = "*" ∨ (inputs.get? k).getD "" = v

/-- A scenario declares a value for an input. -/
def Names (s : Scenario) (k : String) : Prop := s.input.contains k = true

variable {s : Scenario} {inputs inputs' : Dict String String} {k : String}

theorem accepts_iff : s.accepts inputs = true ↔ s.Matches inputs := by
  rw [accepts, List.all_eq_true, Prod.forall]
  refine forall_congr' fun k => forall_congr' fun v => ?_
  rw [Dict.mem_entries, Bool.or_eq_true, beq_iff_eq, beq_iff_eq, wildcard]

/-- Inputs that a scenario does not name make no difference to it, and no value is as good as an
    empty one. -/
theorem accepts_congr
    (h : ∀ k, s.Names k → (inputs.get? k).getD "" = (inputs'.get? k).getD "") :
    s.accepts inputs = s.accepts inputs' := by
  rw [Bool.eq_iff_iff, accepts_iff, accepts_iff]
  refine forall_congr' fun k => forall_congr' fun v => forall_congr' fun hv => ?_
  have hnamed : s.Names k := by rw [Names, Dict.contains, hv]; rfl
  rw [h k hnamed]

/-- Whatever a scenario matches, it still does with a wildcard in place of a value. -/
theorem accepts_wildcard (h : s.accepts inputs = true) (k : String) :
    { s with input := s.input.insert k wildcard }.accepts inputs = true := by
  rw [accepts_iff] at h ⊢
  intro k' v hv
  rw [Dict.get?_insert] at hv
  split at hv
  · exact .inl (Option.some.inj hv).symm
  · exact h k' v hv

end Scenario

namespace MockEntry

/-- The last entry of an urn. -/
def IsLast (entries : List MockEntry) (urn : String) (e : MockEntry) : Prop :=
  ∃ before after, entries = before ++ e :: after ∧ e.urn = urn ∧ ∀ e' ∈ after, e'.urn ≠ urn

/-- The first scenario of an entry that matches the inputs of a call. -/
def IsFirst (e : MockEntry) (inputs : Dict String String) (s : Scenario) : Prop :=
  ∃ before after, e.scenarios = before ++ s :: after ∧ s.Matches inputs ∧
    ∀ s' ∈ before, ¬ s'.Matches inputs

variable {e : MockEntry} {inputs : Dict String String} {s : Scenario}

theorem isFirst_iff :
    e.scenarios.find? (fun s => s.accepts inputs) = some s ↔ e.IsFirst inputs s := by
  rw [List.find?_eq_some_iff_append, Scenario.accepts_iff, IsFirst]
  simp only [Bool.not_eq_true', Bool.eq_false_iff, ne_eq, Scenario.accepts_iff]
  constructor
  · rintro ⟨hmatches, before, after, hsplit, hbefore⟩
    exact ⟨before, after, hsplit, hmatches, hbefore⟩
  · rintro ⟨before, after, hsplit, hmatches, hbefore⟩
    exact ⟨hmatches, before, after, hsplit, hbefore⟩

end MockEntry

namespace Mock

variable {entries entries' : List MockEntry} {urn : String} {e e' : MockEntry}
  {inputs inputs' : Dict String String}

theorem lookupIn_map_urn (urn : String) (l : List MockEntry) :
    Dict.lookupIn urn (l.map fun e => (e.urn, e)) = l.find? fun e => e.urn == urn := by
  induction l with
  | nil => rfl
  | cons e rest ih =>
    rw [List.map_cons, Dict.lookupIn, List.find?_cons, ih]
    by_cases h : urn = e.urn
    · simp [h]
    · have hne : (e.urn == urn) = false := beq_eq_false_iff_ne.2 (Ne.symm h)
      simp [h, hne]

theorem get?_entries (entries : List MockEntry) (urn : String) :
    (ofEntries entries).entries.get? urn = (entries.filter fun e => e.urn == urn).getLast? := by
  rw [ofEntries, Dict.get?_ofList, ← List.map_reverse, lookupIn_map_urn, List.getLast?_filter]

/-- **Entries.** The last entry of an urn counts. -/
theorem get?_ofEntries : (ofEntries entries).entries.get? urn = some e ↔
    MockEntry.IsLast entries urn e := by
  rw [get?_entries, List.getLast?_filter, List.find?_eq_some_iff_append, MockEntry.IsLast]
  simp only [beq_iff_eq, Bool.not_eq_true', beq_eq_false_iff_ne]
  constructor
  · rintro ⟨hurn, after, before, hsplit, hafter⟩
    rw [List.reverse_eq_iff] at hsplit
    exact ⟨before.reverse, after.reverse, by simp [hsplit], hurn, by simpa using hafter⟩
  · rintro ⟨before, after, rfl, hurn, hafter⟩
    exact ⟨hurn, after.reverse, before.reverse, by simp, by simpa using hafter⟩

/-! ### Answers -/

/-- The first matching scenario of the last entry answers. -/
theorem execute_found {s : Scenario} (he : MockEntry.IsLast entries urn e)
    (hs : e.IsFirst inputs s) : (ofEntries entries).execute ⟨urn, inputs⟩ = s.answer urn := by
  have hentry := get?_ofEntries.2 he
  have hscenario := MockEntry.isFirst_iff.2 hs
  simp only [execute, hentry, hscenario]

theorem execute_eq_noScenario {u : String} :
    (ofEntries entries).execute ⟨urn, inputs⟩ = .error (.noScenario u) ↔
      u = urn ∧ ∀ e, MockEntry.IsLast entries urn e → ∀ s ∈ e.scenarios, ¬ s.Matches inputs := by
  simp only [← get?_ofEntries, ← Scenario.accepts_iff]
  rw [execute]
  cases (ofEntries entries).entries.get? urn with
  | none => simpa using eq_comm
  | some e =>
    simp only [Option.some.injEq, forall_eq', ← List.find?_eq_none]
    cases e.scenarios.find? fun s => s.accepts inputs with
    | none => simpa using eq_comm
    | some s =>
      -- A scenario that answers gives its result or its own error.
      simp only [Scenario.answer]
      split <;> simp

/-- An answer depends on the last entry of the urn, and of the inputs on the ones that are named
    there. -/
theorem execute_congr
    (hentries : ∀ e, MockEntry.IsLast entries urn e ↔ MockEntry.IsLast entries' urn e)
    (hinputs : ∀ e s k, MockEntry.IsLast entries urn e → s ∈ e.scenarios → s.Names k →
      (inputs.get? k).getD "" = (inputs'.get? k).getD "") :
    (ofEntries entries).execute ⟨urn, inputs⟩ = (ofEntries entries').execute ⟨urn, inputs'⟩ := by
  have hget : (ofEntries entries).entries.get? urn = (ofEntries entries').entries.get? urn :=
    Option.ext fun e => by rw [get?_ofEntries, get?_ofEntries, hentries]
  rw [execute, execute]
  simp only [← hget]
  cases he : (ofEntries entries).entries.get? urn with
  | none => rfl
  | some e =>
    have hfilter : e.scenarios.filter (fun s => s.accepts inputs) =
        e.scenarios.filter fun s => s.accepts inputs' :=
      List.filter_congr fun s hs => Scenario.accepts_congr fun k hk =>
        hinputs e s k (get?_ofEntries.1 he) hs hk
    simp only [← List.head?_filter, hfilter]

/-- How calls are answered from entries. -/
structure Laws (answer : List MockEntry → ActionCall → Except ActionError ActionResult) : Prop where
  /-- The first matching scenario of the last entry answers, with its error if it has one. -/
  found : ∀ entries urn inputs e s, MockEntry.IsLast entries urn e → e.IsFirst inputs s →
    answer entries ⟨urn, inputs⟩ =
      if s.error = "" then .ok s.result else .error (.failed urn s.error)
  noScenario_iff : ∀ entries urn inputs u, answer entries ⟨urn, inputs⟩ = .error (.noScenario u) ↔
    u = urn ∧ ∀ e, MockEntry.IsLast entries urn e → ∀ s ∈ e.scenarios, ¬ s.Matches inputs
  /-- Any two lists that have the same last entry of an urn give the same answers, -/
  last : ∀ entries entries' e call, MockEntry.IsLast entries call.urn e →
    MockEntry.IsLast entries' call.urn e → answer entries call = answer entries' call
  /-- whatever the entries of other urns are and wherever they stand, -/
  others : ∀ entries entries' call,
    (entries.filter fun e => e.urn == call.urn) = entries'.filter (fun e => e.urn == call.urn) →
      answer entries call = answer entries' call
  /-- and whatever comes before the last one. -/
  earlier : ∀ before before' e after inputs, (∀ e' ∈ after, e'.urn ≠ e.urn) →
    answer (before ++ e :: after) ⟨e.urn, inputs⟩ = answer (before' ++ e :: after) ⟨e.urn, inputs⟩
  /-- Inputs that no scenario of the entry names make no difference, -/
  unnamed : ∀ entries urn inputs inputs', (∀ e s k, MockEntry.IsLast entries urn e →
    s ∈ e.scenarios → s.Names k → inputs.get? k = inputs'.get? k) →
      answer entries ⟨urn, inputs⟩ = answer entries ⟨urn, inputs'⟩
  /-- and neither does it whether an input is missing or empty. -/
  empty : ∀ entries urn inputs inputs',
    (∀ k, inputs.get? k = inputs'.get? k ∨ inputs.get? k = none ∧ inputs'.get? k = some "" ∨
      inputs.get? k = some "" ∧ inputs'.get? k = none) →
      answer entries ⟨urn, inputs⟩ = answer entries ⟨urn, inputs'⟩
  /-- A wildcard in place of a declared value matches whatever the value does. -/
  wildcard : ∀ s inputs k, Scenario.accepts s inputs = true →
    { s with input := s.input.insert k "*" }.accepts inputs = true

/-- **Answers.** A call is answered by the first scenario that matches, of the last entry of its
    urn. -/
theorem laws_execute : Laws fun entries call => (ofEntries entries).execute call where
  found entries urn inputs e s he hs := by
    rw [execute_found he hs, Scenario.answer]
    simp only [String.isEmpty_iff]
  noScenario_iff _ _ _ _ := execute_eq_noScenario
  last entries entries' e call he he' := by
    refine execute_congr (fun e' => ?_) fun _ _ _ _ _ _ => rfl
    rw [← get?_ofEntries, ← get?_ofEntries, get?_ofEntries.2 he, get?_ofEntries.2 he']
  others entries entries' call h := by
    refine execute_congr (fun e => ?_) fun _ _ _ _ _ _ => rfl
    rw [← get?_ofEntries, ← get?_ofEntries, get?_entries, get?_entries, h]
  earlier before before' e after inputs hafter := by
    refine execute_congr (fun e' => ?_) fun _ _ _ _ _ _ => rfl
    rw [← get?_ofEntries, ← get?_ofEntries, get?_ofEntries.2 ⟨before, after, rfl, rfl, hafter⟩,
      get?_ofEntries.2 ⟨before', after, rfl, rfl, hafter⟩]
  unnamed entries urn inputs inputs' h := by
    refine execute_congr (fun _ => Iff.rfl) fun e s k he hs hk => ?_
    rw [h e s k he hs hk]
  empty entries urn inputs inputs' h := by
    refine execute_congr (fun _ => Iff.rfl) fun e s k _ _ _ => ?_
    rcases h k with heq | ⟨hnone, hempty⟩ | ⟨hempty, hnone⟩
    · rw [heq]
    · rw [hnone, hempty]
      rfl
    · rw [hnone, hempty]
      rfl
  wildcard _ _ k h := Scenario.accepts_wildcard h k

end Mock

end Runbook
