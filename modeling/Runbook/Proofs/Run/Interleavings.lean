import Mathlib.Data.List.Induction
import Runbook.Proofs.Run.Early
import Runbook.Proofs.Run.Exec

namespace Runbook

/-!
# Running a graph — actions between which others publish

An action that succeeds writes its exports twice: it broadcasts them to all scopes around it, and
its completion merges them into its own scope once more.  At the top of a runbook both writes meet
the values that other parties publish.  This file says which write wins, for every interleaving.

* `Mutation` — the atomic steps of actions and of other parties, as changes of a machine;
* `Acts.mutations` — the run of an action takes these steps;
* `Interleaves` — actions one after the other, between whose steps others publish;
* `exportedValue_foldl` — the last step that exports a name decides its value;
* `lastWrites_of_interleaves` — a publish is undone if it falls between the broadcast and the
  completion of an action that exports the same name, and not otherwise.
-/

/-! ### Steps -/

/-- What an action that succeeds puts on record, and what it exports. -/
structure Success where
  id : String
  inputs : Dict String String
  result : ActionResult
  exports : Dict String Value
  deriving DecidableEq

/-- One atomic step. -/
inductive Mutation where
  | starts (a : Success)
  | records (a : Success)
  /-- Exports are written to all scopes around the action. -/
  | broadcasts (a : Success)
  /-- The action is done; its exports are merged into its own scope. -/
  | completes (a : Success)
  /-- Another party publishes values. -/
  | publishes (values : Dict String Value)
  deriving DecidableEq

namespace Mutation

/-- Takes a step, in the scope of the whole runbook. -/
def apply (m : Machine) : Mutation → Machine
  | starts a => m.change m.root (.startAction a.id)
  | records a => m.change m.root (.recordParams a.id a.inputs true)
  | broadcasts a => m.publish (.of m.root) a.exports
  | completes a => m.change m.root (.completeAction a.id a.result a.exports)
  | publishes values => m.perform (.publish values)

/-- Whether a step is one of an action. -/
def isOwn : Mutation → Bool
  | publishes _ => false
  | _ => true

/-- The values that a step writes. -/
def exports : Mutation → Dict String Value
  | broadcasts a | completes a => a.exports
  | publishes values => values
  | _ => ∅

/-- The values that a step is to write: a completion only repeats what was broadcast. -/
def announces : Mutation → Dict String Value
  | broadcasts a => a.exports
  | publishes values => values
  | _ => ∅

/-- No step moves the root. -/
theorem root_apply (m : Machine) (s : Mutation) : (s.apply m).root = m.root := by
  cases s with
  | broadcasts | publishes => exact (m.publish_fields _ _).2.1
  | _ => rfl

end Mutation

/-- The steps of an action. -/
def Success.mutations (a : Success) : List Mutation :=
  [.starts a, .records a, .broadcasts a, .completes a]

/-- Some steps are those of actions one after the other, in between of which others publish. -/
def Interleaves (actions : List Success) (steps : List Mutation) : Prop :=
  steps.filter Mutation.isOwn = actions.flatMap Success.mutations

instance (actions : List Success) (steps : List Mutation) :
    Decidable (Interleaves actions steps) :=
  inferInstanceAs (Decidable (_ = _))

/-- **Actions.** An action that succeeds at the top of a runbook takes its steps one after the
    other; in between it waits for its parameters and is called. -/
theorem Acts.mutations {x : Execution} {path : List (String × Nat)} {id urn : String}
    {params exports : Dict String String} {m m' : Machine} {happened : List Occurrence}
    (hroot : m.root < m.store.size)
    (h : Acts x ⟨.of m.root, path⟩ id urn params exports m happened (.ok ()) m') :
    ∃ (a : Success) (waited : List Occurrence) (values : List Value) (m₁ : Machine),
      a.id = id ∧ a.inputs = inputsOf params values ∧
      a.exports = Run.exportsOf exports a.result ∧
      Awaited ⟨.of m.root, path⟩ id x.options.actionLimit (referencesOf params.entries)
        (Mutation.apply m (.starts a)) waited (.ok values) m₁ ∧
      m' = [Mutation.broadcasts a, .completes a].foldl Mutation.apply
        (x.called ⟨.of m.root, path⟩ id ⟨urn, a.inputs⟩ (Mutation.apply m₁ (.records a))) := by
  have hm : m.Ready ⟨.of m.root, path⟩ :=
    ⟨hroot, fun s hs => by rwa [List.mem_singleton.1 hs]⟩
  cases h with
  | @done waited heard values m₁ m₂ result hwait hcall =>
    -- The scope of the whole runbook is the same all along.
    have hinputs := (hwait.extends_after x.backend hm).andChange hm
      (.recordParams id (inputsOf params values) true)
    have hroot₁ : m₁.root = m.root := hinputs.root
    have hroot₂ : m₂.root = m.root := (hinputs.andCall hm hcall).root
    refine ⟨⟨id, inputsOf params values, result, Run.exportsOf exports result⟩, waited, values, m₁,
      rfl, rfl, rfl, hwait, ?_⟩
    simp only [List.foldl_cons, List.foldl_nil, Mutation.apply, (Machine.publish_fields _ _ _).2.1]
    rw [hroot₁]
    have heq := hcall.eq
    dsimp only [Frame.top, Stack.of] at heq ⊢
    rw [heq, hroot₂]

/-! ### The value of a name -/

/-- The value that the scope of the whole runbook exports under a name. -/
def Machine.exportedValue (m : Machine) (name : String) : Option Value :=
  (m.store.scope m.root).exported.get? name

/-- The value of a name after some steps, of which `writes` tells what they write: the one that was
    written last, or the one `before`. -/
def lastWrite (writes : Mutation → Dict String Value) (name : String) (steps : List Mutation)
    (before : Option Value) : Option Value :=
  steps.foldl (fun value s => ((writes s).get? name).or value) before

section

variable {writes : Mutation → Dict String Value} {name : String} {before : Option Value}

/-- The last write of two parts, the later of which counts first. -/
theorem lastWrite_append (steps later : List Mutation) :
    lastWrite writes name (steps ++ later) before =
      lastWrite writes name later (lastWrite writes name steps before) :=
  List.foldl_append

/-- A last step that writes the name counts. -/
theorem lastWrite_concat (steps : List Mutation) (s : Mutation) :
    lastWrite writes name (steps ++ [s]) before =
      ((writes s).get? name).or (lastWrite writes name steps before) :=
  lastWrite_append steps [s]

/-- Without a write of the name it keeps its value. -/
theorem lastWrite_of_none {steps : List Mutation} (h : ∀ s ∈ steps, (writes s).get? name = none) :
    lastWrite writes name steps before = before := by
  induction steps generalizing before with
  | nil => rfl
  | cons s rest ih =>
    rw [lastWrite, List.foldl_cons, h s List.mem_cons_self, Option.none_or]
    exact ih fun s hs => h s (List.mem_cons_of_mem _ hs)

end

variable {m : Machine}

/-- A change of the root scope writes its exports. -/
theorem exportedValue_change (hroot : m.root < m.store.size) (c : Change) (name : String) :
    (m.change m.root c).exportedValue name = (c.exports.get? name).or (m.exportedValue name) := by
  show ((m.store.apply m.root c).scope m.root).exported.get? name = _
  rw [Store.scope_apply hroot, if_pos rfl, Scope.exported_apply, Dict.get?_extend]
  rfl

/-- Publishing to the root scope writes the values. -/
theorem exportedValue_publish (hroot : m.root < m.store.size) (values : Dict String Value)
    (name : String) : (m.publish (.of m.root) values).exportedValue name =
      (values.get? name).or (m.exportedValue name) := by
  by_cases hempty : values.isEmpty
  · obtain rfl : values = ∅ := Dict.ext (List.isEmpty_iff.1 hempty)
    rfl
  · unfold Machine.publish Stack.publish
    rw [if_neg hempty, if_neg hempty]
    show ((m.store.apply m.root (.publish values)).scope m.root).exported.get? name = _
    rw [Store.scope_apply hroot, if_pos rfl, Scope.exported_apply, Dict.get?_extend]
    rfl

/-- Publishing opens no scope. -/
theorem size_publish (m : Machine) (values : Dict String Value) :
    (m.publish (.of m.root) values).store.size = m.store.size := by
  unfold Machine.publish Stack.publish
  split
  · rfl
  · exact Store.size_apply _ _ _

/-- A step writes what it exports. -/
theorem exportedValue_apply (hroot : m.root < m.store.size) (s : Mutation) (name : String) :
    (s.apply m).exportedValue name = (s.exports.get? name).or (m.exportedValue name) := by
  cases s with
  | broadcasts | publishes => exact exportedValue_publish hroot _ name
  | _ => exact exportedValue_change hroot _ name

/-- No step opens a scope. -/
theorem size_apply_mutation (m : Machine) (s : Mutation) :
    (s.apply m).store.size = m.store.size := by
  cases s with
  | broadcasts | publishes => exact size_publish m _
  | _ => exact Store.size_apply _ _ _

/-- **Last writer.** The value of a name is the one that was written last, by whatever step. -/
theorem exportedValue_foldl (name : String) (steps : List Mutation) :
    ∀ {m : Machine}, m.root < m.store.size →
      (steps.foldl Mutation.apply m).exportedValue name =
        lastWrite Mutation.exports name steps (m.exportedValue name) := by
  induction steps with
  | nil => exact fun _ => rfl
  | cons s rest ih =>
    intro m hroot
    have hroot' : (s.apply m).root < (s.apply m).store.size := by
      rwa [Mutation.root_apply, size_apply_mutation]
    rw [List.foldl_cons, ih hroot', exportedValue_apply hroot]
    rfl

/-! ### Interleavings -/

/-- In the steps of actions, every completion follows its broadcast. -/
theorem broadcasts_of_completes {actions : List Success} {a : Success} :
    ∀ {before after : List Mutation},
      actions.flatMap Success.mutations = before ++ .completes a :: after →
        ∃ earlier, before = earlier ++ [.broadcasts a] := by
  induction actions with
  | nil => simp
  | cons b rest ih =>
    intro before after h
    rw [List.flatMap_cons, Success.mutations] at h
    -- The completion is the last step of the first action, or a step of a later one.
    match before, h with
    | [], h | [_], h | [_, _], h => simp at h
    | [s₁, s₂, s₃], h =>
      simp only [List.cons_append, List.nil_append, List.cons.injEq, Mutation.completes.injEq] at h
      obtain ⟨-, -, rfl, rfl, -⟩ := h
      exact ⟨[s₁, s₂], rfl⟩
    | s₁ :: s₂ :: s₃ :: s₄ :: before, h =>
      simp only [List.cons_append, List.nil_append, List.cons.injEq] at h
      obtain ⟨earlier, rfl⟩ := ih h.2.2.2.2
      exact ⟨s₁ :: s₂ :: s₃ :: s₄ :: earlier, rfl⟩

/-- Steps that are no own ones publish. -/
theorem eq_map_publishes {steps : List Mutation} (h : ∀ s ∈ steps, ¬ s.isOwn) :
    ∃ published : List (Dict String Value), steps = published.map .publishes := by
  induction steps with
  | nil => exact ⟨[], rfl⟩
  | cons s rest ih =>
    obtain ⟨published, rfl⟩ := ih fun s hs => h s (List.mem_cons_of_mem _ hs)
    cases s with
    | publishes values => exact ⟨values :: published, rfl⟩
    | _ => exact absurd rfl (h _ List.mem_cons_self)

/-- Between a broadcast and the completion of the same action, others publish and nothing else
    happens. -/
theorem Interleaves.split {actions : List Success} {steps before after : List Mutation}
    {a : Success} (h : Interleaves actions steps)
    (hsteps : steps = before ++ .completes a :: after) :
    ∃ earlier, ∃ published : List (Dict String Value),
      before = earlier ++ .broadcasts a :: published.map .publishes := by
  rw [Interleaves, hsteps, List.filter_append, List.filter_cons_of_pos rfl] at h
  obtain ⟨own, hown⟩ := broadcasts_of_completes h.symm
  obtain ⟨earlier, rest, rfl, -, hrest⟩ := List.filter_eq_append_iff.1 hown
  obtain ⟨between, published, rfl, hbetween, -, hpublished⟩ := List.filter_eq_cons_iff.1 hrest
  obtain ⟨published, rfl⟩ := eq_map_publishes (List.filter_eq_nil_iff.1 hpublished)
  exact ⟨earlier ++ between, published, by simp⟩

/-! ### Which write wins -/

/-- What becomes of a name in some steps from the machine `m` on. -/
structure LastWrites (m : Machine) (steps : List Mutation) : Prop where
  /-- Broadcasts, completions and publishes all write. -/
  last : ∀ name, (steps.foldl Mutation.apply m).exportedValue name =
    lastWrite Mutation.exports name steps (m.exportedValue name)
  /-- Completions do not matter for a name that no one publishes between the broadcast and the
      completion of an action that exports it. -/
  announced : ∀ name,
    (∀ earlier a later, ∀ published : List (Dict String Value),
      steps = earlier ++ .broadcasts a :: (published.map .publishes ++ .completes a :: later) →
        (a.exports.get? name).isSome → ∀ values ∈ published, values.get? name = none) →
    (steps.foldl Mutation.apply m).exportedValue name =
      lastWrite Mutation.announces name steps (m.exportedValue name)
  /-- A publish that falls between them is undone, unless the name is written once more. -/
  undone : ∀ name earlier a later value, ∀ published : List (Dict String Value),
    steps = earlier ++ .broadcasts a :: (published.map .publishes ++ .completes a :: later) →
      a.exports.get? name = some value → (∀ s ∈ later, s.exports.get? name = none) →
        (steps.foldl Mutation.apply m).exportedValue name = some value

/-- Where no publish falls between the broadcast of a name and the completion, a completion writes
    what was announced last. -/
theorem lastWrite_announces {name : String} {before : Option Value} {actions : List Success}
    {steps : List Mutation} (h : Interleaves actions steps)
    (hbetween : ∀ earlier a later, ∀ published : List (Dict String Value),
      steps = earlier ++ .broadcasts a :: (published.map .publishes ++ .completes a :: later) →
        (a.exports.get? name).isSome → ∀ values ∈ published, values.get? name = none) :
    ∀ done later, steps = done ++ later →
      lastWrite Mutation.exports name done before =
        lastWrite Mutation.announces name done before := by
  intro done
  -- The steps taken so far grow at their end.
  induction done using List.reverseRecOn with
  | nil => exact fun _ _ => rfl
  | append_singleton done s ih =>
    intro later hsteps
    rw [List.append_assoc, List.singleton_append] at hsteps
    rw [lastWrite_concat, lastWrite_concat, ih _ hsteps]
    cases s with
    | completes a =>
      obtain ⟨earlier, published, rfl⟩ := h.split hsteps
      show (a.exports.get? name).or _ = (Dict.get? ∅ name).or _
      rw [Dict.get?_empty, Option.none_or]
      cases hvalue : a.exports.get? name with
      | none => rw [Option.none_or]
      | some value =>
        -- What was announced last is the broadcast of the same action.
        rw [List.append_assoc, List.cons_append] at hsteps
        have hsilent : ∀ s ∈ published.map Mutation.publishes,
            (Mutation.announces s).get? name = none := by
          intro s hs
          obtain ⟨values, hvalues, rfl⟩ := List.mem_map.1 hs
          exact hbetween earlier a later published hsteps (by rw [hvalue]; rfl) values hvalues
        rw [List.append_cons, lastWrite_append, lastWrite_of_none hsilent, lastWrite_concat]
        show some value = (a.exports.get? name).or _
        rw [hvalue, Option.some_or]
    | _ => rfl

/-- **Interleavings.** Whatever others publish between the steps of actions, the last write of a
    name wins.  The completion of an action is such a write, so it undoes what was published since
    the exports of the action were broadcast. -/
theorem lastWrites_of_interleaves {m : Machine} (hroot : m.root < m.store.size)
    {actions : List Success} {steps : List Mutation} (h : Interleaves actions steps) :
    LastWrites m steps where
  last name := exportedValue_foldl name steps hroot
  announced name hbetween := by
    rw [exportedValue_foldl name steps hroot]
    exact lastWrite_announces h hbetween steps [] (List.append_nil steps).symm
  undone name earlier a later value published hsteps hvalue hlater := by
    rw [exportedValue_foldl name steps hroot, hsteps, ← List.cons_append, ← List.append_assoc,
      List.append_cons, lastWrite_append, lastWrite_of_none hlater, lastWrite_concat]
    show (a.exports.get? name).or _ = some value
    rw [hvalue, Option.some_or]

/-! ### A publish that is undone -/

/-- An action that exports a value of `k`. -/
def exporting : Success where
  id := "a"
  inputs := ∅
  result := { raw := "1" }
  exports := .singleton "k" (.scalar "1")

/-- Another value of `k` is published between its broadcast and its completion. -/
def overtaken : List Mutation :=
  [.starts exporting, .records exporting, .broadcasts exporting,
    .publishes (.singleton "k" (.scalar "2")), .completes exporting]

/-- `lastWrites_of_interleaves` for a completion that is overtaken by a publish. -/
theorem lastWrites_overtaken :
    Interleaves [exporting] overtaken ∧ LastWrites (.fresh ∅) overtaken := by
  have h : Interleaves [exporting] overtaken := by decide
  exact ⟨h, lastWrites_of_interleaves Nat.one_pos h⟩

/-- The value that is published later is not the one that remains. -/
theorem undone_overtaken :
    Interleaves [exporting] overtaken ∧
      lastWrite Mutation.announces "k" overtaken ((Machine.fresh ∅).exportedValue "k") =
        some (.scalar "2") ∧
      (overtaken.foldl Mutation.apply (.fresh ∅)).exportedValue "k" = some (.scalar "1") := by
  decide

end Runbook
