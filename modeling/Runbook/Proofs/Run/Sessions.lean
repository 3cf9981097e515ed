import Runbook.Proofs.Graph.Build
import Runbook.Proofs.Run.Scopes

namespace Runbook

/-!
# Running a graph — again and again

An execution may be started again on the scopes that earlier starts have left behind, and values may
be published and the tree of scopes cancelled in between.

* `Deed`, `Execution.session` — what is done with an execution from outside, one deed after the
  other;
* `Machine.Standing` — what holds of a machine whatever is done with it (`standing_session`);
* `session_induction` — how more is shown to hold of it;
* `Execution.outcomes` — how the starts of a session ended;
* `error_session` — the root scope carries the error of the latest start that failed, even if a
  later one completes (`stale_error`).
-/

/-- Something that is done with an execution from outside. -/
inductive Deed where
  /-- Starts the graph; the events are the ones to come meanwhile. -/
  | start (events : List Event)
  /-- Publishes values or cancels while nothing runs. -/
  | outside (effect : Effect)

namespace Execution

/-- The machine after a deed. -/
def undergo (x : Execution) (m : Machine) : Deed → Machine
  | .start events => (x.start { m with schedule := events }).2
  | .outside effect => m.perform effect

/-- The machine after some deeds, the first of them done with a machine that is fresh. -/
def session (x : Execution) (seed : Dict String Value) (deeds : List Deed) : Machine :=
  deeds.foldl x.undergo (.fresh seed)

/-- How the starts among some deeds end, in order. -/
def outcomes (x : Execution) (m : Machine) : List Deed → List Outcome
  | [] => []
  | .start events :: rest =>
    (x.start { m with schedule := events }).1 :: outcomes x (x.undergo m (.start events)) rest
  | .outside effect :: rest => outcomes x (x.undergo m (.outside effect)) rest

end Execution

/-! ### Standing machines -/

/-- Whatever is done with a machine, it is sound and has a root scope. -/
structure Machine.Standing (backend : Backend) (seed : Dict String Value) (m : Machine) : Prop where
  sound : m.Sound backend seed
  root : m.root < m.store.size

namespace Machine.Standing

variable {backend : Backend} {seed : Dict String Value} {m m' : Machine}

/-- Planning other events changes no scope. -/
theorem reschedule (h : m.Standing backend seed) (events : List Event) :
    ({ m with schedule := events } : Machine).Standing backend seed :=
  ⟨h.sound.reschedule events, h.root⟩

/-- What extends a standing machine is standing. -/
theorem extend {happened : List Occurrence} (h : m.Standing backend seed)
    (hext : Extends backend m happened m') : m'.Standing backend seed :=
  ⟨hext.sound seed h.sound, hext.root ▸ Nat.lt_of_lt_of_le h.root hext.size_le⟩

/-- All standing machines have the root of a fresh one. -/
theorem root_eq (h : m.Standing backend seed) (h' : m'.Standing backend seed) :
    m'.root = m.root :=
  h'.sound.root.trans h.sound.root.symm

end Machine.Standing

variable {x : Execution} {seed : Dict String Value} {m : Machine}

/-- A session begins with a standing machine. -/
theorem standing_fresh (backend : Backend) (seed : Dict String Value) :
    (Machine.fresh seed).Standing backend seed :=
  ⟨Machine.sound_scheduled backend seed [], Nat.one_pos⟩

/-- Every deed leaves a standing machine. -/
theorem standing_undergo (h : m.Standing x.backend seed) (d : Deed) :
    (x.undergo m d).Standing x.backend seed := by
  cases d with
  | start events =>
    obtain ⟨happened, hstarted⟩ := started_start x (h.reschedule events).root
    exact (h.reschedule events).extend hstarted.extends
  | outside effect =>
    obtain ⟨happened, hext, -⟩ := Machine.extends_perform x.backend h.root effect
    exact h.extend hext

/-- **Sessions.** Whatever was done, the machine stands. -/
theorem standing_session (x : Execution) (seed : Dict String Value) (deeds : List Deed) :
    (x.session seed deeds).Standing x.backend seed :=
  List.foldlRecOn deeds x.undergo (standing_fresh x.backend seed)
    fun _ h d _ => standing_undergo h d

/-- What holds of a fresh machine, and holds on whatever is done with a machine that stands, holds
    after every session. -/
theorem session_induction {P : Machine → Prop} (hfresh : P (.fresh seed))
    (hundergo : ∀ m : Machine, m.Standing x.backend seed → P m → ∀ d, P (x.undergo m d))
    (deeds : List Deed) : P (x.session seed deeds) := by
  have hfirst : (Machine.fresh seed).Standing x.backend seed ∧ P (.fresh seed) :=
    ⟨standing_fresh x.backend seed, hfresh⟩
  have hdeed : ∀ m : Machine, m.Standing x.backend seed ∧ P m → ∀ d ∈ deeds,
      (x.undergo m d).Standing x.backend seed ∧ P (x.undergo m d) :=
    fun m h d _ => ⟨standing_undergo h.1 d, hundergo m h.1 h.2 d⟩
  exact (List.foldlRecOn deeds x.undergo hfirst hdeed).2

/-! ### The error of the root scope -/

/-- A start leaves its failure behind as the error of the root scope; a start that completes leaves
    there what it finds. -/
theorem error_start (h : m.Standing x.backend seed) :
    ((x.start m).2.store.scope m.root).error =
      ((x.start m).1.failure?.map Failure.message).or (m.store.scope m.root).error := by
  obtain ⟨happened, hstarted⟩ := started_start x h.root
  obtain ⟨m₁, hexec, hend⟩ := hstarted.exec
  have hext := hexec.extends hstarted.ready
  -- The run itself closes only scopes that it has opened, and the root scope is older.
  have hsame : (m₁.store.scope m.root).error = (m.store.scope m.root).error :=
    (hexec.stays hstarted.ready).error_eq hext h.sound fun hopened =>
      Nat.not_le_of_lt h.root hopened.1
  have hroot : m.root < m₁.store.size := Nat.lt_of_lt_of_le h.root hext.size_le
  rw [hend, ← hsame]
  generalize (x.start m).1 = outcome
  show ((m₁.store.apply m.root outcome.closing).scope m.root).error = _
  rw [Store.scope_apply hroot, if_pos rfl, Scope.error_apply]
  rcases outcome with f | ⟨⟩ <;> rfl

/-- What others do leaves the error of the root scope alone. -/
theorem error_perform (h : m.Standing x.backend seed) (e : Effect) :
    ((m.perform e).store.scope m.root).error = (m.store.scope m.root).error := by
  obtain ⟨happened, hext, hforeign⟩ := Machine.extends_perform x.backend h.root e
  have hstays : Stays (.of m.root) m happened (m.perform e) := .foreign hforeign
  exact hstays.error_eq hext h.sound fun hopened => Nat.not_le_of_lt h.root hopened.1

/-- The last answer of a list is one of the rest, or else the first. -/
theorem getLast?_filterMap_cons {α β : Type} (f : α → Option β) (a : α) (rest : List α) :
    ((a :: rest).filterMap f).getLast? = (rest.filterMap f).getLast?.or (f a) := by
  cases ha : f a with
  | none => rw [List.filterMap_cons_none ha, Option.or_none]
  | some b =>
    rw [List.filterMap_cons_some ha, List.getLast?_cons]
    cases (rest.filterMap f).getLast? <;> rfl

/-- The error of the root after some deeds is that of the last start that has failed, by induction
    on the deeds. -/
theorem error_foldl_undergo (deeds : List Deed) : ∀ {m : Machine}, m.Standing x.backend seed →
    ((deeds.foldl x.undergo m).store.scope m.root).error =
      (((x.outcomes m deeds).filterMap Outcome.failure?).getLast?.map Failure.message).or
        (m.store.scope m.root).error := by
  induction deeds with
  | nil => exact fun _ => rfl
  | cons d rest ih =>
    intro m h
    have hstanding := standing_undergo h d
    have hrest := ih hstanding
    rw [h.root_eq hstanding] at hrest
    rw [List.foldl_cons, hrest]
    cases d with
    | outside effect =>
      have hsame : ((x.undergo m (.outside effect)).store.scope m.root).error =
        (m.store.scope m.root).error := error_perform h effect
      rw [hsame, Execution.outcomes]
    | start events =>
      have hstart : ((x.undergo m (.start events)).store.scope m.root).error =
        ((x.start { m with schedule := events }).1.failure?.map Failure.message).or
          (m.store.scope m.root).error := error_start (h.reschedule events)
      -- The latest failure is among the later starts, or else it is the one of this start.
      rw [hstart, Execution.outcomes, getLast?_filterMap_cons, Option.map_or, Option.or_assoc]

/-- **The error of the root scope.** It is the message of the latest start that failed. -/
theorem error_session (x : Execution) (seed : Dict String Value) (deeds : List Deed) :
    ((x.session seed deeds).store.scope (x.session seed deeds).root).error =
      ((x.outcomes (.fresh seed) deeds).filterMap Outcome.failure?).getLast?.map
        Failure.message := by
  have h := error_foldl_undergo deeds (standing_fresh x.backend seed)
  rw [(standing_fresh x.backend seed).root_eq (standing_session x seed deeds)]
  exact h.trans Option.or_none

/-! ### A graph that is started twice -/

/-- An action that waits for a value. -/
def waitingSteps : List Step :=
  [{ Step.execute "u" with id := some "a", params := .singleton "p" "$v" }]

def waitingRun : Execution where
  graph := ⟨[.action "a" "u" (.singleton "p" "$v") ∅]⟩
  backend _ _ := .ok {}

/-- The value is published only after a first start has ended without it. -/
def waitingDeeds : List Deed :=
  [.start [], .outside (.publish (.singleton "v" (.scalar "1"))), .start []]

/-- The second start completes, but the root scope still carries the error of the first. -/
theorem stale_error :
    Graph.build waitingSteps .fresh = (.ok waitingRun.graph, ⟨1⟩) ∧
      (waitingRun.outcomes (.fresh ∅) waitingDeeds).map Outcome.status = [.halted, .completed] ∧
      ((waitingRun.session ∅ waitingDeeds).store.scope
        (waitingRun.session ∅ waitingDeeds).root).error =
          some "node `a` timed out waiting for `$v`" := by
  exact ⟨rfl, by decide +kernel, by decide +kernel⟩

end Runbook
