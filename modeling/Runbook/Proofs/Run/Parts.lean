import Runbook.Proofs.Run.Wait

namespace Runbook

/-!
# Running a graph — its parts on a machine

What the parts of a run do to a machine, as equations that later files compute with:

* `Run.on`, `Run.on_bind` — running a part on a machine, and two parts one after the other;
* `inputsOf`, `Run.on_parameters` — the parameters of an action are what they were declared as, with
  the values that came for references filled in (`keys_inputsOf`);
* `Condition.bindEach`, `Run.on_bindAll` — a condition is bound to the values that came;
* `Condition.auditEach_eq` — the texts put on record meanwhile are those of what is bound;
* `Execution.called`, `Run.on_call` — a machine after a call.
-/

namespace Run

/-- How a part of a run ends on a machine. -/
abbrev on {α : Type} (r : Run α) (m : Machine) : Except Failure α × Machine := r.run.run m

variable {α β : Type}

/-- Doing nothing leaves the machine as it is. -/
theorem on_pure (a : α) (m : Machine) : (pure a : Run α).on m = (.ok a, m) := rfl

/-- Looking at the machine. -/
theorem on_get (m : Machine) : (get : Run Machine).on m = (.ok m, m) := rfl

/-- Changing the machine. -/
theorem on_modify (f : Machine → Machine) (m : Machine) :
    (modify f : Run PUnit).on m = (.ok ⟨⟩, f m) := rfl

/-- The second part runs on what the first has left, unless the first has failed. -/
theorem on_bind (r : Run α) (f : α → Run β) (m : Machine) :
    (r >>= f).on m =
      match r.on m with
      | (.ok a, m₁) => (f a).on m₁
      | (.error e, m₁) => (.error e, m₁) := by
  show (ExceptT.bind r f).run.run m = _
  unfold ExceptT.bind
  show (ExceptT.bindCont f (r.on m).1).run (r.on m).2 = _
  generalize r.on m = ended
  obtain ⟨answer, m₁⟩ := ended
  cases answer <;> rfl

/-- The failure of a part becomes its answer. -/
theorem on_attempt (r : Run α) (m : Machine) :
    (attempt r).on m = (.ok (r.on m).1, (r.on m).2) := rfl

/-- `Run.isCancelled` looks at the scopes of the frame. -/
theorem on_isCancelled (frame : Frame) (m : Machine) :
    (isCancelled frame).on m = (.ok (frame.stack.isCancelled m.store), m) := rfl

variable (frame : Frame)

/-- `Run.record` changes the innermost scope. -/
theorem on_record (c : Change) (m : Machine) :
    (record frame c).on m = (.ok (), m.change frame.stack.top c) := rfl

/-- Waiting, with what is put on record if no value comes. -/
theorem on_await (node : String) (limit : Nat) (onFail : String → Change) (token : String)
    (m : Machine) :
    (await frame node limit onFail token).on m =
      match m.await frame.stack ⟨node, frame.path⟩ limit token with
      | (.ok v, m₁) => (.ok v, m₁)
      | (.error e, m₁) =>
        (.error (.ofWait node e),
          m₁.change frame.stack.top (onFail (Failure.ofWait node e).recordText)) := by
  unfold await
  rw [on_bind, on_get]
  dsimp only
  generalize m.await frame.stack ⟨node, frame.path⟩ limit token = waited
  obtain ⟨answer, m₁⟩ := waited
  cases answer <;> rfl

end Run

/-! ### Parameters of actions -/

/-- Declared parameters, with the values that came for the references among them. -/
def fillIn : List (String × String) → List Value → List (String × String)
  | [], _ => []
  | (name, token) :: rest, values =>
    if Reference.needsLookup token then
      (name, (values.head?.map Value.text).getD token) :: fillIn rest values.tail
    else (name, token) :: fillIn rest values

/-- The references among declared parameters, in the order in which they are waited for. -/
def referencesOf (declared : List (String × String)) : List String :=
  (declared.map Prod.snd).filter Reference.needsLookup

/-- The parameters as they are given to an action. -/
def inputsOf (declared : Dict String String) (values : List Value) : Dict String String :=
  (fillIn declared.entries values).foldl (fun d b => d.insert b.1 b.2) ∅

/-- Names are kept in their order when values are filled in. -/
theorem map_fst_fillIn (declared : List (String × String)) (values : List Value) :
    (fillIn declared values).map Prod.fst = declared.map Prod.fst := by
  induction declared generalizing values with
  | nil => rfl
  | cons b rest ih =>
    obtain ⟨name, token⟩ := b
    unfold fillIn
    by_cases hlookup : Reference.needsLookup token
    · rw [if_pos hlookup, List.map_cons, List.map_cons, ih]
    · rw [if_neg hlookup, List.map_cons, List.map_cons, ih]

/-- The inputs of a call have the declared names in their order. -/
theorem entries_inputsOf (declared : Dict String String) (values : List Value) :
    (inputsOf declared values).entries = fillIn declared.entries values := by
  refine Dict.entries_foldl_insert ∅ ?_
  -- Declared names are in order, so binding them one by one lists them as declared.
  have hsorted := List.pairwise_map.2 declared.sorted
  rw [Dict.entries_empty, List.nil_append, ← List.pairwise_map (R := fun a b : String => a < b),
    map_fst_fillIn]
  exact hsorted

/-- **Inputs.** An action is given the parameters that were declared for it, no more and no less. -/
theorem keys_inputsOf (declared : Dict String String) (values : List Value) :
    (inputsOf declared values).keys = declared.keys := by
  rw [Dict.keys, entries_inputsOf, map_fst_fillIn, Dict.keys]

namespace Run

variable (x : Execution) (frame : Frame) (id : String)

/-- A parameter that is a reference is waited for. -/
theorem on_parameter_reference {token : String} (h : Reference.needsLookup token) (m : Machine) :
    (parameter x frame id token).on m =
      match m.await frame.stack ⟨id, frame.path⟩ x.options.actionLimit token with
      | (.ok v, m₁) => (.ok v.text, m₁)
      | (.error e, m₁) =>
        (.error (.ofWait id e),
          m₁.change frame.stack.top (.failAction id (Failure.ofWait id e).recordText)) := by
  rw [parameter, if_pos h, on_bind, on_await]
  generalize m.await frame.stack ⟨id, frame.path⟩ x.options.actionLimit token = waited
  obtain ⟨answer, m₁⟩ := waited
  cases answer <;> rfl

/-- A parameter that is no reference is passed on as it is written. -/
theorem on_parameter_literal {token : String} (h : ¬ Reference.needsLookup token) (m : Machine) :
    (parameter x frame id token).on m = (.ok token, m) := by
  rw [parameter, if_neg h, on_pure]

/-- The induction behind `on_parameters`: the entries that are left, with the inputs so far. -/
theorem on_foldlM_parameters (declared : List (String × String)) (d : Dict String String)
    (m : Machine) :
    (declared.foldlM (fun d p => do return d.insert p.1 (← parameter x frame id p.2)) d :
        Run (Dict String String)).on m =
      match m.awaitAll frame.stack ⟨id, frame.path⟩ x.options.actionLimit
          (referencesOf declared) with
      | (.ok values, m₁) =>
        (.ok ((fillIn declared values).foldl (fun d b => d.insert b.1 b.2) d), m₁)
      | (.error e, m₁) =>
        (.error (.ofWait id e),
          m₁.change frame.stack.top (.failAction id (Failure.ofWait id e).recordText)) := by
  induction declared generalizing d m with
  | nil => rfl
  | cons b rest ih =>
    obtain ⟨name, token⟩ := b
    rw [List.foldlM_cons, on_bind, on_bind, referencesOf, List.map_cons]
    by_cases hlookup : Reference.needsLookup token
    · rw [on_parameter_reference x frame id hlookup, List.filter_cons_of_pos hlookup,
        Machine.awaitAll]
      generalize m.await frame.stack ⟨id, frame.path⟩ x.options.actionLimit token = waited
      obtain ⟨answer, m₁⟩ := waited
      cases answer with
      | error e => rfl
      | ok v =>
        dsimp only [on_pure]
        rw [ih, referencesOf]
        generalize m₁.awaitAll frame.stack ⟨id, frame.path⟩ x.options.actionLimit _ = later
        obtain ⟨answer, m₂⟩ := later
        cases answer with
        | error e => rfl
        | ok values =>
          dsimp only [Except.map]
          rw [fillIn, if_pos hlookup]
          rfl
    · -- A literal is given as it stands, and nothing is waited for.
      rw [on_parameter_literal x frame id hlookup, List.filter_cons_of_neg hlookup]
      dsimp only [on_pure]
      rw [ih, referencesOf]
      generalize m.awaitAll frame.stack ⟨id, frame.path⟩ x.options.actionLimit _ = later
      obtain ⟨answer, m₂⟩ := later
      cases answer with
      | error e => rfl
      | ok values =>
        dsimp only
        rw [fillIn, if_neg hlookup]
        rfl

/-- **Parameters.** They are waited for one after the other. -/
theorem on_parameters (declared : Dict String String) (m : Machine) :
    (parameters x frame id declared).on m =
      match m.awaitAll frame.stack ⟨id, frame.path⟩ x.options.actionLimit
          (referencesOf declared.entries) with
      | (.ok values, m₁) => (.ok (inputsOf declared values), m₁)
      | (.error e, m₁) =>
        (.error (.ofWait id e),
          m₁.change frame.stack.top (.failAction id (Failure.ofWait id e).recordText)) :=
  on_foldlM_parameters x frame id declared.entries ∅ m

end Run

/-! ### References of conditions -/

namespace Condition

/-- A condition with the values that came for its references. -/
def bindEach (c : Condition) (tokens : List String) (values : List Value) : Condition :=
  (tokens.zip values).foldl (fun c b => c.bind b.1 b.2) c

/-- The texts of the values that came for references, with those on record before. -/
def auditEach (used : Dict String String) (tokens : List String) (values : List Value) :
    Dict String String :=
  (tokens.zip values).foldl (fun used b => used.insert b.1 b.2.text) used

/-- **Audits.** What is put on record in the course of binding are the texts of what is bound. -/
theorem auditEach_eq (c : Condition) (tokens : List String) (values : List Value) :
    auditEach (c.bound.map Value.text) tokens values =
      (c.bindEach tokens values).bound.map Value.text := by
  unfold auditEach bindEach
  induction tokens.zip values generalizing c with
  | nil => rfl
  | cons b bindings ih =>
    rw [List.foldl_cons, List.foldl_cons, ← ih (c.bind b.1 b.2)]
    exact congrArg (bindings.foldl _) (Dict.map_insert ..).symm

/-- Nothing is bound in a condition that was just parsed. -/
theorem bound_of_parse {expression : String} {c : Condition} (h : parse expression = .ok c) :
    c.bound = ∅ := by
  rw [parse] at h
  cases hparse : Comparison.parse expression with
  | error e =>
    rw [hparse] at h
    cases h
  | ok comparison =>
    rw [hparse] at h
    cases h
    rfl

/-- What is put on record of a condition are the texts of what is bound in it. -/
theorem auditEach_of_parse {expression : String} {c : Condition} (h : parse expression = .ok c)
    (tokens : List String) (values : List Value) :
    auditEach ∅ tokens values = (c.bindEach tokens values).bound.map Value.text := by
  rw [← auditEach_eq, bound_of_parse h]
  rfl

end Condition

namespace Run

/-- The induction behind `on_bindAll`: the tokens that are left, with the values so far. -/
theorem on_foldlM_bind (x : Execution) (frame : Frame) (id : String) (tokens : List String)
    (c : Condition) (used : Dict String String) (m : Machine) :
    (tokens.foldlM
      (fun (c, used) token => do
        let v ← await frame id x.options.conditionLimit (.failChoice id) token
        return (c.bind token v, used.insert token v.text)) (c, used) :
        Run (Condition × Dict String String)).on m =
      match m.awaitAll frame.stack ⟨id, frame.path⟩ x.options.conditionLimit tokens with
      | (.ok values, m₁) =>
        (.ok (c.bindEach tokens values, Condition.auditEach used tokens values), m₁)
      | (.error e, m₁) =>
        (.error (.ofWait id e),
          m₁.change frame.stack.top (.failChoice id (Failure.ofWait id e).recordText)) := by
  induction tokens generalizing c used m with
  | nil => rfl
  | cons token rest ih =>
    rw [List.foldlM_cons, on_bind, on_bind, on_await, Machine.awaitAll]
    generalize m.await frame.stack ⟨id, frame.path⟩ x.options.conditionLimit token = waited
    obtain ⟨answer, m₁⟩ := waited
    cases answer with
    | error e => rfl
    | ok v =>
      dsimp only [on_pure]
      rw [ih]
      generalize m₁.awaitAll frame.stack ⟨id, frame.path⟩ x.options.conditionLimit rest = later
      obtain ⟨answer, m₂⟩ := later
      cases answer <;> rfl

/-- **References of a condition.** They are waited for one after the other. -/
theorem on_bindAll (x : Execution) (frame : Frame) (id : String) (c : Condition) (m : Machine) :
    (bindAll x frame id c).on m =
      match m.awaitAll frame.stack ⟨id, frame.path⟩ x.options.conditionLimit
          c.comparison.references with
      | (.ok values, m₁) =>
        (.ok (c.bindEach c.comparison.references values,
          Condition.auditEach ∅ c.comparison.references values), m₁)
      | (.error e, m₁) =>
        (.error (.ofWait id e),
          m₁.change frame.stack.top (.failChoice id (Failure.ofWait id e).recordText)) :=
  on_foldlM_bind x frame id c.comparison.references c ∅ m

end Run

/-! ### Calls -/

/-- A machine on which an action was called, with its answer and what has happened meanwhile. -/
def Execution.called (x : Execution) (frame : Frame) (id : String) (c : ActionCall) (m : Machine) :
    Machine :=
  (m.countExecution.recordCall frame.stack.top id c (x.backend m.calls c)).meanwhile
    ⟨id, frame.path⟩

/-- Nothing happens in a call if the next event is not meant for it. -/
theorem Execution.called_eq {m : Machine} {frame : Frame} {id : String}
    (h : ∀ e ∈ m.schedule.head?, e.trigger.fitsCall ⟨id, frame.path⟩ = false) (x : Execution)
    (c : ActionCall) : x.called frame id c m =
      m.countExecution.recordCall frame.stack.top id c (x.backend m.calls c) :=
  Machine.meanwhile_eq_self h

namespace Run

/-- **Calls.** The backend answers; a failure is put on record. -/
theorem on_call (x : Execution) (frame : Frame) (id : String) (c : ActionCall) (m : Machine) :
    (call x frame id c).on m =
      match x.backend m.calls c with
      | .ok result => (.ok result, x.called frame id c m)
      | .error e =>
        (.error (.actionFailed id e),
          (x.called frame id c m).change frame.stack.top (.failAction id e.message)) := by
  unfold call Execution.called
  rw [on_bind, on_modify]
  dsimp only
  rw [on_bind, on_get]
  dsimp only
  rw [on_bind, on_modify, show m.countExecution.calls = m.calls from rfl]
  cases x.backend m.calls c <;> rfl

end Run

end Runbook
