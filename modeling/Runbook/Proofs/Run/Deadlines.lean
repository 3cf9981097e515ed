import Runbook.Proofs.Graph.Warnings
import Runbook.Proofs.Run.Wakeups

namespace Runbook

/-!
# Waiting — how lookups of threads may end

A thread that waits gets its deadline when it begins: the moment at which its limit will have
elapsed, unless the clock of the threads cannot show that moment.  So a limit beyond the horizon of
the clock never ends a wait, and neither does a value if the token spells no reference.

* `Wait.Dated` — a deadline is no earlier than the limit, and the clock can show it;
* `Threads.Permits` — the answers that a lookup may give on a clock with some horizon;
* `Threads.Phase.Keeps`, `Threads.Sincere` — what holds of a thread and of all of them;
* `Threads.sincere_take`, `Threads.sincere_run` — that it holds for a turn and for a run;
* `Threads.permits_answered` — every answer of every thread is permitted.
-/

/-- The deadline of a wait is a moment that the clock can show, at least a limit after its start. -/
def Wait.Dated (horizon : Nat) (w : Wait) : Prop :=
  ∀ due ∈ w.deadline, w.limit ≤ due ∧ due ≤ horizon

namespace Threads

variable {s : Threads} {horizon t : Nat} {th : Thread} {p p' : Phase} {move : Move} {w : Wait}
  {answer : Except WaitError Value}

/-- How a lookup may end on a clock with this horizon. -/
def Permits (horizon : Nat) (w : Wait) : Except WaitError Value → Prop
  | .ok _ => Reference.parse? w.token ≠ none
  | .error e => e.Within w.limit horizon

/-- What holds of a thread in a phase. -/
def Phase.Keeps (horizon : Nat) : Phase → Prop
  | finds w _ => Reference.parse? w.token ≠ none
  | answers w answer => Permits horizon w answer
  | p => ∀ w ∈ p.wait?, w.Dated horizon

/-- A deadline that has come is one of a limit that the clock can show. -/
theorem permits_of_isDue {now : Nat} (h : w.Dated horizon) (hdue : w.isDue now) :
    Permits horizon w (.error (.timedOut w.token w.limit)) := by
  rw [Wait.isDue, Option.any_eq_true] at hdue
  obtain ⟨due, hdeadline, -⟩ := hdue
  obtain ⟨hlimit, hshown⟩ := h due hdeadline
  exact .timedOut w.token (Nat.le_trans hlimit hshown)

/-- **One step of a thread.** It comes to an answer only if the answer is permitted. -/
theorem keeps_next (h : p.Keeps horizon) (hnext : p.next? s = some (move, p')) :
    p'.Keeps horizon := by
  cases p with
  | idle | asleep => cases hnext
  | reads w | enters w seen =>
    rw [Phase.next?, Option.ite_none_left_eq_some] at hnext
    obtain ⟨-, rfl⟩ := Prod.mk.inj (Option.some.inj hnext.2)
    exact h
  | checks w seen =>
    obtain ⟨-, rfl⟩ := Prod.mk.inj (Option.some.inj hnext)
    split
    · exact .cancelled w.token
    · exact h
  | looks w seen k =>
    rw [Phase.next?] at hnext
    split at hnext
    · obtain ⟨-, rfl⟩ := Prod.mk.inj (Option.some.inj hnext)
      exact h
    · split at hnext <;> obtain ⟨-, rfl⟩ := Prod.mk.inj (Option.some.inj hnext)
      · rename_i hlookup
        -- What a scope knows has the spelling of a reference.
        intro hnone
        rw [Scope.lookup_eq_none hnone] at hlookup
        cases hlookup
      · exact h
  | finds w v =>
    obtain ⟨-, rfl⟩ := Prod.mk.inj (Option.some.inj hnext)
    exact h
  | misses w seen =>
    obtain ⟨-, rfl⟩ := Prod.mk.inj (Option.some.inj hnext)
    split
    · rename_i hdue
      exact permits_of_isDue (h w rfl) hdue
    · exact h
  | rests w seen =>
    rw [Phase.next?, Option.ite_none_left_eq_some] at hnext
    obtain ⟨-, rfl⟩ := Prod.mk.inj (Option.some.inj hnext.2)
    split <;> exact h
  | settles w seen | lies w seen =>
    obtain ⟨-, rfl⟩ := Prod.mk.inj (Option.some.inj hnext)
    split <;> exact h
  | answers w answer | raises id =>
    obtain ⟨-, rfl⟩ := Prod.mk.inj (Option.some.inj hnext)
    exact fun w hw => by cases hw
  | gathers tree todo | bumps gate tree todo =>
    rw [Phase.next?, Option.ite_none_left_eq_some] at hnext
    obtain ⟨-, rfl⟩ := Prod.mk.inj (Option.some.inj hnext.2)
    exact fun w hw => by cases hw
  | writes gate todo =>
    cases todo <;> obtain ⟨-, rfl⟩ := Prod.mk.inj (Option.some.inj hnext) <;>
      exact fun w hw => by cases hw

/-- A job begins with a deadline that the clock can show, or with none. -/
theorem keeps_begin {job : Job} (h : job.begin? s = some p) : p.Keeps s.horizon := by
  cases job with
  | wait stack token limit =>
    rw [Job.begin?, Option.ite_none_right_eq_some] at h
    obtain rfl := Option.some.inj h.2
    intro w hw due hdue
    obtain rfl := Option.some.inj hw
    obtain ⟨hshown, heq⟩ := Option.ite_none_right_eq_some.1 hdue
    obtain rfl := Option.some.inj heq
    exact ⟨Nat.le_add_left _ _, hshown⟩
  | publish stack values =>
    rw [Job.begin?, Option.ite_none_left_eq_some, Option.ite_none_right_eq_some] at h
    obtain rfl := Option.some.inj h.2.2
    exact fun w hw => by cases hw
  | change | cancel =>
    obtain rfl := Option.some.inj h
    exact fun w hw => by cases hw

/-- Waking changes no deadline. -/
theorem keeps_rouse (h : p.Keeps horizon) (tree : Nat) : (p.rouse tree).Keeps horizon := by
  cases p with
  | asleep w seen =>
    rw [Phase.rouse]
    split <;> exact h
  | _ => exact h

/-! ### All threads -/

/-- Every thread keeps to what is permitted on a clock with this horizon, and has done so. -/
structure Sincere (horizon : Nat) (s : Threads) : Prop where
  clock : s.horizon = horizon
  keeps : ∀ th ∈ s.threads, th.phase.Keeps horizon
  answers : ∀ th ∈ s.threads, ∀ w answer, .answered w answer ∈ th.log → Permits horizon w answer

/-- An update of one thread that keeps to its deadline. -/
theorem Sincere.put (h : s.Sincere horizon) (hkeeps : p.Keeps horizon) {log : List Move}
    (hlog : ∀ w answer, .answered w answer ∈ log → Permits horizon w answer) :
    (s.put t ⟨p, log⟩).Sincere horizon where
  clock := h.clock
  keeps th hth := by
    rcases mem_put hth with hth | rfl
    · exact h.keeps th hth
    · exact hkeeps
  answers th hth := by
    rcases mem_put hth with hth | rfl
    · exact h.answers th hth
    · exact hlog

/-- What a step does to what the threads share is nothing to their answers. -/
theorem Sincere.perform (h : s.Sincere horizon) (move : Move) :
    (s.perform move).Sincere horizon := by
  cases move with
  | bumped tree =>
    refine ⟨h.clock, fun th hth => ?_, fun th hth => ?_⟩ <;>
      obtain ⟨th', hth', rfl⟩ := List.mem_map.1 hth
    · exact keeps_rouse (h.keeps th' hth') tree
    · exact h.answers th' hth'
  | _ => exact ⟨h.clock, h.keeps, h.answers⟩

/-- A step of one thread keeps all threads sincere. -/
theorem sincere_advance (h : s.Sincere horizon) (t : Nat) : (s.advance t).Sincere horizon := by
  rw [advance]
  cases hth : s.threads[t]? with
  | none => exact h
  | some th =>
    have hmem := List.mem_of_getElem? hth
    dsimp only
    cases hnext : th.phase.next? s with
    | none => exact h
    | some next =>
      obtain ⟨move, p'⟩ := next
      refine (h.perform move).put (keeps_next (h.keeps th hmem) hnext) fun w answer hlog => ?_
      rcases List.mem_cons.1 hlog with rfl | hlog
      · -- It is the answer that the thread had come to.
        have hkeeps := h.keeps th hmem
        rw [eq_answers_of_next? hnext] at hkeeps
        exact hkeeps
      · exact h.answers th hmem w answer hlog

/-- Every kind of turn keeps threads sincere. -/
theorem sincere_take (h : s.Sincere horizon) (turn : Turn) : (s.take turn).Sincere horizon := by
  cases turn with
  | begin t job =>
    rw [take, begin]
    split
    · rename_i log hth
      cases hbegin : job.begin? s with
      | none => exact h
      | some p =>
        exact h.put (h.clock ▸ keeps_begin hbegin) (h.answers _ (List.mem_of_getElem? hth))
    · exact h
  | advance t => exact sincere_advance h t
  | wake t =>
    rw [take, wake]
    split
    · rename_i w seen log hth
      have hmem := List.mem_of_getElem? hth
      have hkeeps : (Phase.rests w seen).Keeps horizon := h.keeps _ hmem
      exact h.put hkeeps (h.answers _ hmem)
    · exact h
  | tick | openRoot seed | openIn parent => exact ⟨h.clock, h.keeps, h.answers⟩

/-- **Runs.** Whatever turns the threads take, their answers stay permitted. -/
theorem sincere_run (h : s.Sincere horizon) (turns : List Turn) :
    (s.run turns).Sincere horizon := by
  induction turns generalizing s with
  | nil => exact h
  | cons turn rest ih => exact ih (sincere_take h turn)

/-- At the start nothing has been answered. -/
theorem sincere_start (store : Store) (horizon count : Nat) :
    (start store horizon count).Sincere horizon := by
  refine ⟨rfl, fun th hth => ?_, fun th hth w answer hlog => ?_⟩ <;>
    obtain rfl := (List.mem_replicate.1 hth).2
  · exact fun w hw => by cases hw
  · cases hlog

/-- **Answers.** Among any number of threads, whatever turns they take, no lookup answers but as
    it may on their clock. -/
theorem permits_answered {store : Store} {count : Nat} {turns : List Turn}
    (hth : th ∈ ((start store horizon count).run turns).threads)
    (h : .answered w answer ∈ th.log) : Permits horizon w answer :=
  (sincere_run (sincere_start store horizon count) turns).answers th hth w answer h

end Threads

end Runbook
