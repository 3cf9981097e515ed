import Mathlib.Data.List.Basic
import Runbook.Run.Failure

namespace Runbook

/-!
# Running a graph — failures told apart

On record a failure is only a text.  This file says which failures the checks of a graph rule out,
and that no other failure is put on record by the text of one of these.

* `Text.ne_of_prefix`, `Text.ne_of_suffix` — texts that begin or end differently;
* `Failure.cause` — what made the innermost iteration fail;
* `Failure.RuledOut`, `Failure.Foreseen` — failures that a checked graph cannot have, and all
  others;
* `Failure.OfChoice`, `Failure.OfLoop` — how a choice fails whose condition is well formed, and how
  loops fail;
* `Foreseen.message_ne`, `OfChoice.recordText_ne` — their texts are none of a failure ruled out.
-/

/-! ### Beginnings and endings of texts -/

namespace Text

variable {a b s t : String}

/-- A text goes on after its beginning. -/
theorem prefix_append (h : a.toList <+: s.toList) (t : String) : a.toList <+: (s ++ t).toList := by
  rw [String.toList_append]
  exact h.trans (List.prefix_append _ _)

/-- A text has its ending whatever stands before it. -/
theorem suffix_append (h : a.toList <:+ t.toList) (s : String) : a.toList <:+ (s ++ t).toList := by
  rw [String.toList_append]
  exact h.trans (List.suffix_append _ _)

/-- Texts that begin differently are different. -/
theorem ne_of_prefix (ha : a.toList <+: s.toList) (hb : b.toList <+: t.toList)
    (h : ¬ a.toList <+: b.toList ∧ ¬ b.toList <+: a.toList) : s ≠ t := by
  rintro rfl
  exact (List.prefix_or_prefix_of_prefix ha hb).elim h.1 h.2

/-- Texts that end differently are different. -/
theorem ne_of_suffix (ha : a.toList <:+ s.toList) (hb : b.toList <:+ t.toList)
    (h : ¬ a.toList <:+ b.toList ∧ ¬ b.toList <:+ a.toList) : s ≠ t := by
  rintro rfl
  exact (List.suffix_or_suffix_of_suffix ha hb).elim h.1 h.2

end Text

/-- A condition that was not evaluated says whether a value was missing or could not be compared. -/
theorem EvalError.suffix_message (op : Operator) (lhs rhs token : String) :
    "`".toList <:+ (unsupported op lhs rhs).message.toList ∧
      "` has no bound value".toList <:+ (unbound token).message.toList :=
  ⟨Text.suffix_append List.suffix_rfl _, Text.suffix_append List.suffix_rfl _⟩

/-- What a text that is no comparison is said to be. -/
def ParseError.openings : List String :=
  ["empty condition expression", "no supported binary operator splits `"]

/-- Every `ParseError.message` begins with one of a few openings. -/
theorem ParseError.message_prefix (e : ParseError) :
    ∃ a ∈ openings, a.toList <+: e.message.toList := by
  cases e with
  | empty => exact ⟨_, List.mem_cons_self, List.prefix_rfl⟩
  | noOperator =>
    exact ⟨_, List.mem_cons_of_mem _ List.mem_cons_self,
      Text.prefix_append (Text.prefix_append List.prefix_rfl _) _⟩

namespace Failure

/-! ### What is ruled out -/

/-- What made the innermost of the failed iterations fail. -/
def cause : Failure → Failure
  | iterationFailed _ _ f => f.cause
  | f => f

/-- The failures that the checks of a graph rule out. -/
inductive RuledOut : Failure → Prop
  | malformed (node : String) (reason : ParseError) : RuledOut (.conditionMalformed node reason)
  | unbound (node expression token : String) :
      RuledOut (.conditionUndecidable node expression (.unbound token))

/-- A failure that is not ruled out, and was not made by one that is. -/
def Foreseen (f : Failure) : Prop := ¬ f.cause.RuledOut

/-- How a choice fails whose condition is well formed. -/
inductive OfChoice : Failure → Prop
  | starved (node : String) (e : WaitError) : OfChoice (.ofWait node e)
  | undecidable (node expression : String) (op : Operator) (lhs rhs : String) :
      OfChoice (.conditionUndecidable node expression (.unsupported op lhs rhs))

/-- How a loop fails whose body has no failure that is ruled out. -/
inductive OfLoop : Failure → Prop
  | starved (node : String) (e : WaitError) : OfLoop (.ofWait node e)
  | cancelled : OfLoop .cancelled
  | iteration (node : String) (index : Nat) {f : Failure} (hf : f.Foreseen) :
      OfLoop (.iterationFailed node index f)

/-- Values may be late whatever was checked. -/
theorem foreseen_ofWait (node : String) (e : WaitError) : (ofWait node e).Foreseen := by
  cases e <;> (rintro ⟨⟩)

/-- Actions may fail whatever was checked. -/
theorem foreseen_actionFailed (node : String) (e : ActionError) :
    (actionFailed node e).Foreseen := by
  rintro ⟨⟩

/-- A run may be cancelled whatever was checked. -/
theorem foreseen_cancelled : cancelled.Foreseen := by
  rintro ⟨⟩

/-- The failures of a choice in a checked graph are `Foreseen`. -/
theorem OfChoice.foreseen {f : Failure} (h : f.OfChoice) : f.Foreseen := by
  cases h with
  | starved node e => exact foreseen_ofWait node e
  | undecidable => rintro ⟨⟩

/-- The failures of a loop in a checked graph are `Foreseen`. -/
theorem OfLoop.foreseen {f : Failure} (h : f.OfLoop) : f.Foreseen := by
  cases h with
  | starved node e => exact foreseen_ofWait node e
  | cancelled => exact foreseen_cancelled
  | iteration _ _ hf => exact hf

/-! ### Messages -/

/-- What the message of a failure begins with. -/
def opening : Failure → String
  | dependencyTimeout .. => "node `"
  | actionFailed .. => "action node `"
  | conditionUndecidable .. => "condition `"
  | conditionMalformed .. => "condition on node `"
  | iterationFailed .. => "iteration "
  | cancelled => "execution cancelled"

/-- A message begins with its `Failure.opening`. -/
theorem opening_prefix (f : Failure) : f.opening.toList <+: f.message.toList := by
  cases f with
  | cancelled => exact List.prefix_rfl
  | actionFailed | conditionMalformed =>
    exact Text.prefix_append (Text.prefix_append (Text.prefix_append List.prefix_rfl _) _) _
  | dependencyTimeout =>
    exact Text.prefix_append (Text.prefix_append (Text.prefix_append
      (Text.prefix_append List.prefix_rfl _) _) _) _
  | conditionUndecidable | iterationFailed =>
    exact Text.prefix_append (Text.prefix_append (Text.prefix_append
      (Text.prefix_append (Text.prefix_append List.prefix_rfl _) _) _) _) _

def openings : List String :=
  ["node `", "action node `", "condition `", "condition on node `", "iteration ",
    "execution cancelled"]

/-- `Failure.openings` has the opening of every failure. -/
theorem opening_mem (f : Failure) : f.opening ∈ openings := by
  cases f <;> simp [opening, openings]

/-- No opening is the beginning of another one. -/
theorem openings_diverge : ∀ a ∈ openings, ∀ b ∈ openings, a ≠ b →
    ¬ a.toList <+: b.toList ∧ ¬ b.toList <+: a.toList := by
  decide +kernel

/-- Failures that open differently have different messages, by `openings_diverge`. -/
theorem message_ne_of_opening {f g : Failure} (h : f.opening ≠ g.opening) :
    f.message ≠ g.message :=
  Text.ne_of_prefix f.opening_prefix g.opening_prefix
    (openings_diverge _ f.opening_mem _ g.opening_mem h)

variable {f g : Failure}

/-- No other failure has the message of one that is ruled out. -/
theorem Foreseen.message_ne (hf : f.Foreseen) (hg : g.RuledOut) : f.message ≠ g.message := by
  cases hg with
  | malformed node reason =>
    cases f with
    | conditionMalformed => exact absurd (.malformed ..) hf
    | _ => exact message_ne_of_opening (by simp [opening])
  | unbound node expression token =>
    cases f with
    | conditionUndecidable node' expression' reason =>
      cases reason with
      | unbound => exact absurd (.unbound ..) hf
      | unsupported op lhs rhs =>
        -- The messages begin alike, and any node and expression may stand in between.
        obtain ⟨hf, hg⟩ := EvalError.suffix_message op lhs rhs token
        exact Text.ne_of_suffix (Text.suffix_append hf _) (Text.suffix_append hg _)
          (by decide +kernel)
    | _ => exact message_ne_of_opening (by simp [opening])

/-! ### Texts on the records of choices -/

/-- A text that is on the record of a choice begins with one of these, the last of them if its
    condition has no truth value. -/
def recordOpenings : List String :=
  ["timed out waiting for dependency", "execution cancelled", "Evaluation failed: "]

/-- What a failed choice puts on record begins with one of `recordOpenings`. -/
theorem OfChoice.recordText_prefix (h : f.OfChoice) :
    ∃ a ∈ recordOpenings, a.toList <+: f.recordText.toList := by
  cases h with
  | starved node e =>
    cases e with
    | timedOut => exact ⟨_, List.mem_cons_self, List.prefix_rfl⟩
    | cancelled => exact ⟨_, List.mem_cons_of_mem _ List.mem_cons_self, List.prefix_rfl⟩
  | undecidable =>
    exact ⟨_, List.getLast_mem (List.cons_ne_nil _ _), Text.prefix_append List.prefix_rfl _⟩

/-- The record of a choice whose condition is well formed never says what it would say of a failure
    that is ruled out. -/
theorem OfChoice.recordText_ne (hf : f.OfChoice) (hg : g.RuledOut) :
    f.recordText ≠ g.recordText := by
  cases hg with
  | malformed node reason =>
    have hdiverge : ∀ a ∈ recordOpenings, ∀ b ∈ ParseError.openings,
        ¬ a.toList <+: b.toList ∧ ¬ b.toList <+: a.toList := by
      decide +kernel
    obtain ⟨a, ha, hfa⟩ := hf.recordText_prefix
    obtain ⟨b, hb, hgb⟩ := reason.message_prefix
    exact Text.ne_of_prefix hfa hgb (hdiverge a ha b hb)
  | unbound node expression token =>
    cases hf with
    | starved node' e =>
      have hg : "Evaluation failed: ".toList <+:
          (conditionUndecidable node expression (.unbound token)).recordText.toList :=
        Text.prefix_append List.prefix_rfl _
      cases e with
      | timedOut =>
        exact Text.ne_of_prefix (a := "timed out waiting for dependency") List.prefix_rfl hg
          (by decide +kernel)
      | cancelled =>
        exact Text.ne_of_prefix (a := "execution cancelled") List.prefix_rfl hg (by decide +kernel)
    | undecidable node' expression' op lhs rhs =>
      obtain ⟨hf, hg⟩ := EvalError.suffix_message op lhs rhs token
      exact Text.ne_of_suffix (Text.suffix_append hf _) (Text.suffix_append hg _)
        (by decide +kernel)

end Failure

end Runbook
