import Runbook.Proofs.Scope.Broadcast

namespace Runbook

/-!
# Scopes — what a version tells

A scope counts its changes.  Scopes are shared by many stacks, so a scope may be changed through any
of them; whoever keeps the version of a scope can tell later whether anything was changed.

* `Operation`, `Scene.after` — what may be done with the scopes of a tree and with the stacks made
  of them;
* `Scene.Becomes` — operations that are done one after the other (`Becomes.family`);
* `Operation.changesOf` — the changes of a scope that an operation makes, one at the most;
* `Becomes.scope` — a scope is what these changes make of it;
* `Scene.Counted` — so the version counts them, and tells scopes apart that are not the same
  (`Becomes.counted`).
-/

/-- What may be done with the scopes of one tree and with the stacks made of them. -/
inductive Operation where
  /-- Opens an empty scope in the tree of another one. -/
  | openIn (parent : ScopeId)
  /-- Makes the stack of a single scope. -/
  | stackOf (scope : ScopeId)
  /-- Makes the stack that has a new scope on top of another stack. -/
  | pushChild (s : Stack)
  | change (scope : ScopeId) (c : Change)
  | publish (s : Stack) (values : Dict String Value)
  | cancel (scope : ScopeId)
  /-- Reads scopes and stacks.  Waiting for a value is no more than that. -/
  | read

/-- The changes of a scope that an operation makes. -/
def Operation.changesOf (scope : ScopeId) : Operation → List Change
  | change s c => if s = scope then [c] else []
  | publish s values =>
    if values.isEmpty then [] else if scope ∈ s.scopes then [.publish values] else []
  | _ => []

/-- No operation changes a scope twice. -/
theorem Operation.length_changesOf_le (scope : ScopeId) (op : Operation) :
    (op.changesOf scope).length ≤ 1 := by
  cases op with
  | change s c =>
    show (if s = scope then [c] else []).length ≤ 1
    split <;> simp
  | publish s values =>
    show (if values.isEmpty then [] else if scope ∈ s.scopes then [Change.publish values] else
      []).length ≤ 1
    split_ifs <;> simp
  | _ => exact Nat.zero_le _

/-- The scopes of one tree, and the stacks that were made of them. -/
structure Scene where
  store : Store
  made : List Stack

namespace Scene

/-- A new tree, of which no stack was made yet. -/
def opening (seed : Dict String Value) : Scene := ⟨(Store.empty.openRoot seed).2, []⟩

/-- The scene after an operation. -/
def after (w : Scene) : Operation → Scene
  | .openIn parent => { w with store := (w.store.openIn parent).2 }
  | .stackOf scope => { w with made := .of scope :: w.made }
  | .pushChild s => ⟨(s.pushChild w.store).2, (s.pushChild w.store).1 :: w.made⟩
  | .change scope c => { w with store := w.store.apply scope c }
  | .publish s values => { w with store := s.publish w.store values }
  | .cancel scope => { w with store := w.store.cancel scope }
  | .read => w

/-- Operations are about scopes that are there and stacks that were made. -/
def Allows (w : Scene) : Operation → Prop
  | .openIn scope | .stackOf scope | .change scope _ | .cancel scope => scope < w.store.size
  | .pushChild s | .publish s _ => s ∈ w.made
  | .read => True

/-- `w.Becomes ops w'` — the operations `ops`, one after the other, make `w'` of `w`. -/
inductive Becomes : Scene → List Operation → Scene → Prop
  | refl {w : Scene} : Becomes w [] w
  | step {w w' : Scene} {op : Operation} {ops : List Operation} :
      w.Allows op → Becomes (w.after op) ops w' → Becomes w (op :: ops) w'

variable {seed : Dict String Value} {w w₁ w' : Scene} {op : Operation} {ops later : List Operation}

/-- A single operation. -/
theorem Becomes.one (h : w.Allows op) : w.Becomes [op] (w.after op) := .step h .refl

/-- Operations and more operations. -/
theorem Becomes.trans (h : w.Becomes ops w₁) (h' : w₁.Becomes later w') :
    w.Becomes (ops ++ later) w' := by
  induction h with
  | refl => exact h'
  | step hallows _ ih => exact .step hallows (ih h')

/-- There is a scene between operations that follow each other. -/
theorem Becomes.split (h : w.Becomes (ops ++ later) w') :
    ∃ w₁, w.Becomes ops w₁ ∧ w₁.Becomes later w' := by
  induction ops generalizing w with
  | nil => exact ⟨w, .refl, h⟩
  | cons op ops ih =>
    cases h with
    | step hallows hrest =>
      obtain ⟨w₁, hops, hlater⟩ := ih hrest
      exact ⟨w₁, .step hallows hops, hlater⟩

/-! ### Scenes and families -/

/-- The scopes and stacks of a scene are the ones of a family. -/
abbrev IsFamily (seed : Dict String Value) (w : Scene) : Prop := Family seed w.store w.made

/-- Every operation leads from a family to one. -/
theorem IsFamily.after (h : w.IsFamily seed) (hallows : w.Allows op) :
    (w.after op).IsFamily seed := by
  cases op with
  | openIn => exact h.openIn hallows
  | stackOf => exact h.stackOf hallows
  | pushChild => exact h.pushChild hallows
  | change _ c => exact h.change c hallows
  | publish _ values => exact h.publish values hallows
  | cancel => exact h.cancel hallows
  | read => exact h

/-- `IsFamily.after` for several operations. -/
theorem Becomes.family (h : w.Becomes ops w') (hw : w.IsFamily seed) : w'.IsFamily seed := by
  induction h with
  | refl => exact hw
  | step hallows _ ih => exact ih (hw.after hallows)

/-- No stack is taken away. -/
theorem made_subset_after (w : Scene) (op : Operation) : w.made ⊆ (w.after op).made := by
  cases op with
  | stackOf | pushChild => exact List.subset_cons_self _ _
  | _ => exact List.Subset.refl _

/-- Scopes that were made stay made. -/
theorem Becomes.made_subset (h : w.Becomes ops w') : w.made ⊆ w'.made := by
  induction h with
  | refl => exact List.Subset.refl _
  | step _ _ ih => exact List.Subset.trans (made_subset_after _ _) ih

/-! ### Changes -/

/-- **Operations.** A scope is what the changes of an operation make of it.  A scope that is not
    there counts as an empty one. -/
theorem scope_after (hw : w.IsFamily seed) (hallows : w.Allows op) (scope : ScopeId) :
    (w.after op).store.scope scope =
      (op.changesOf scope).foldl Scope.apply (w.store.scope scope) := by
  cases op with
  | openIn parent => exact w.store.scope_openIn parent scope
  | pushChild s => exact w.store.scope_openIn s.top scope
  | stackOf | cancel | read => rfl
  | change s c =>
    show (w.store.apply s c).scope scope = (if s = scope then [c] else []).foldl _ _
    rw [Store.scope_apply hallows, apply_ite (List.foldl _ _)]
    rfl
  | publish s values =>
    show (s.publish w.store values).scope scope = (if values.isEmpty then [] else _).foldl _ _
    by_cases hempty : values.isEmpty
    · rw [Stack.publish, if_pos hempty, if_pos hempty]
      rfl
    · -- The scope is on the stack once at the most, so it is written once.
      rw [if_neg hempty, Stack.scope_publish (hw.present s hallows) (hw.nodup s hallows)
        (Bool.eq_false_iff.2 hempty), apply_ite (List.foldl _ _)]
      rfl

/-- **Many operations.** A scope is what all their changes make of it. -/
theorem Becomes.scope (h : w.Becomes ops w') (hw : w.IsFamily seed) (scope : ScopeId) :
    w'.store.scope scope =
      (ops.flatMap (Operation.changesOf scope)).foldl Scope.apply (w.store.scope scope) := by
  induction h with
  | refl => rfl
  | step hallows _ ih =>
    rw [ih (hw.after hallows), scope_after hw hallows, List.flatMap_cons, List.foldl_append]

end Scene

/-! ### Versions -/

/-- Every change counts once. -/
theorem Scope.version_foldl (changes : List Change) (s : Scope) :
    (changes.foldl Scope.apply s).version = s.version + changes.length := by
  induction changes generalizing s with
  | nil => rfl
  | cons c rest ih => rw [List.foldl_cons, ih, version_apply, List.length_cons]; omega

/-- The versions of all scopes count what happens to them while `ops` are done. -/
structure Scene.Counted (w : Scene) (ops : List Operation) (w' : Scene) : Prop where
  /-- The version goes up by one for each change of the scope, and for nothing else. -/
  version : ∀ scope, (w'.store.scope scope).version =
    (w.store.scope scope).version + (ops.flatMap (Operation.changesOf scope)).length
  /-- It never goes down. -/
  grows : ∀ scope, (w.store.scope scope).version ≤ (w'.store.scope scope).version
  /-- A scope with the same version is the same in all that it holds. -/
  detects : ∀ scope, (w'.store.scope scope).version = (w.store.scope scope).version →
    w'.store.scope scope = w.store.scope scope

/-- **Versions.** They count the changes, whatever is done. -/
theorem Scene.Becomes.counted {seed : Dict String Value} {w w' : Scene} {ops : List Operation}
    (h : w.Becomes ops w') (hw : w.IsFamily seed) : w.Counted ops w' := by
  have hversion (scope : ScopeId) : (w'.store.scope scope).version =
      (w.store.scope scope).version + (ops.flatMap (Operation.changesOf scope)).length := by
    rw [h.scope hw, Scope.version_foldl]
  refine ⟨hversion, fun scope => hversion scope ▸ Nat.le_add_right _ _, fun scope hsame => ?_⟩
  -- The version counts no change, so there was none.
  have hnone : ops.flatMap (Operation.changesOf scope) = [] :=
    List.eq_nil_of_length_eq_zero (Nat.add_eq_left.1 ((hversion scope).symm.trans hsame))
  rw [h.scope hw, hnone, List.foldl_nil]

/-- The other way round it does not hold: a loop that was never started cannot be finished, and
    still that counts as a change. -/
example : ({} : Scope).apply (.finishLoop "l") = { version := 1 } := by decide

end Runbook
