import Runbook.Proofs.Run.Start

namespace Runbook

/-!
# Running a graph — the scopes that a run can change

What runs in a frame changes the scopes of its stack and the scopes that are opened for it.  It
closes only the latter; whoever opened a scope closes it.  So nothing is done to the scope of an
iteration once the iteration is over.

* `Scope.error_foldl` — the error of a scope is the one that it was last closed with;
* `LeavesOpen` — a stretch does not close a scope, which keeps its error then;
* `Stays` — a stretch stays within a stack and the scopes opened in it.  Executions do
  (`Exec.stays`);
* `Stays.untouched`, `Stays.leavesOpen` — what that means for the scopes outside.
-/

/-! ### Closing scopes -/

namespace Change

/-- The error with which a change closes a scope. -/
def closing? : Change → Option String
  | closeWithError e => some e
  | _ => none

/-- Whether a change closes a scope. -/
def closes : Change → Bool
  | close | closeWithError _ => true
  | _ => false

/-- Only `Change.closeWithError` gives a scope an error. -/
theorem eq_of_closing? {c : Change} {e : String} (h : c.closing? = some e) :
    c = closeWithError e := by
  cases c with
  | closeWithError => exact congrArg closeWithError (Option.some.inj h)
  | _ => cases h

end Change

/-- A change gives a scope its error, or leaves the one it had. -/
theorem Scope.error_apply (s : Scope) (c : Change) : (s.apply c).error = c.closing?.or s.error := by
  cases c with
  | finishLoop id =>
    obtain ⟨loops, hloops⟩ := s.change_finishLoop id
    show (s.change (.finishLoop id)).error = s.error
    rw [hloops]
  | _ => rfl

/-- **Errors of scopes.** A scope is in error if it was closed so, and the last time counts. -/
theorem Scope.error_foldl (cs : List Change) (s : Scope) :
    (cs.foldl Scope.apply s).error = (cs.filterMap Change.closing?).getLast?.or s.error := by
  induction cs generalizing s with
  | nil => rfl
  | cons c rest ih =>
    rw [List.foldl_cons, ih, error_apply]
    cases hc : c.closing? with
    | none =>
      rw [List.filterMap_cons_none hc]
      rfl
    | some e =>
      rw [List.filterMap_cons_some hc, List.getLast?_cons]
      cases (rest.filterMap Change.closing?).getLast? <;> rfl

/-- A new scope has no error. -/
theorem Scope.error_initial (seed : Dict String Value) (s : ScopeId) :
    (Scope.initial seed s).error = none := by
  unfold Scope.initial
  by_cases hs : s = 0
  · rw [if_pos hs]
  · rw [if_neg hs]

/-- Whatever is done to a scope besides exporting values is a change of that scope alone. -/
theorem Occurrence.eq_changed_of_mem_changesOf {s : ScopeId} {o : Occurrence} {c : Change}
    (h : c ∈ o.changesOf s) (hc : ∀ values, c ≠ .publish values) : o = .changed s c := by
  cases o with
  | changed t d =>
    by_cases ht : t = s
    · rw [changesOf, if_pos ht, List.mem_singleton] at h
      rw [ht, h]
    · rw [changesOf, if_neg ht] at h
      exact absurd h List.not_mem_nil
  | published scopes values => exact absurd (List.mem_replicate.1 h).2 (hc values)
  | _ => exact absurd h List.not_mem_nil

/-! ### Scopes that stay open -/

/-- Nothing closes a scope. -/
def LeavesOpen (s : ScopeId) (happened : List Occurrence) : Prop :=
  ∀ o ∈ happened, ∀ c ∈ o.changesOf s, c.closes = false

namespace LeavesOpen

variable {s : ScopeId} {m m' : Machine} {happened before after : List Occurrence}

/-- Stretches that leave the scope open, one after the other. -/
theorem append (h : LeavesOpen s before) (h' : LeavesOpen s after) :
    LeavesOpen s (before ++ after) :=
  fun o ho => (List.mem_append.1 ho).elim (h o) (h' o)

/-- A change that closes nothing, or closes another scope. -/
theorem change {t : ScopeId} {c : Change} (h : t = s → c.closes = false) :
    LeavesOpen s [.changed t c] := by
  intro o ho d hd
  rw [List.mem_singleton.1 ho] at hd
  by_cases ht : t = s
  · rw [Occurrence.changesOf, if_pos ht, List.mem_singleton] at hd
    rw [hd, h ht]
  · rw [Occurrence.changesOf, if_neg ht] at hd
    exact absurd hd List.not_mem_nil

/-- A scope that is not closed keeps its error. -/
theorem error_eq {backend : Backend} {seed : Dict String Value} (h : LeavesOpen s happened)
    (hext : Extends backend m happened m') (hm : m.Sound backend seed) :
    (m'.store.scope s).error = (m.store.scope s).error := by
  have hnone : (happened.flatMap (Occurrence.changesOf s)).filterMap Change.closing? = [] := by
    refine List.filterMap_eq_nil_iff.2 fun c hc => Option.eq_none_iff_forall_ne_some.2 ?_
    intro e he
    obtain ⟨o, ho, hco⟩ := List.mem_flatMap.1 hc
    have hopen := h o ho c hco
    rw [Change.eq_of_closing? he] at hopen
    cases hopen
  rw [hext.scope hm, Scope.error_foldl, hnone]
  rfl

end LeavesOpen

/-! ### Staying within a stack -/

/-- An occurrence changes the scopes of a stack, the scope of the whole runbook and scopes that are
    opened between two machines; it closes none but the latter. -/
structure Occurrence.Within (stack : Stack) (m m' : Machine) (o : Occurrence) : Prop where
  changes : ∀ s, o.changesOf s ≠ [] → s ∈ stack.scopes ∨ s = m.root ∨ Opened m m' s
  closes : ∀ s, (∃ c ∈ o.changesOf s, c.closes) → Opened m m' s

/-- A stretch of a run stays within a stack and the scopes opened in it. -/
def Stays (stack : Stack) (m : Machine) (happened : List Occurrence) (m' : Machine) : Prop :=
  ∀ o ∈ happened, o.Within stack m m'

namespace Stays

variable {stack : Stack} {m m₁ m₂ m' : Machine} {happened before after : List Occurrence}

/-- A part of a stretch stays where the stretch does. -/
theorem weaken (h : Stays stack m₁ happened m₂) (hroot : m₁.root = m.root)
    (hle : m.store.size ≤ m₁.store.size) (hle' : m₂.store.size ≤ m'.store.size) :
    Stays stack m happened m' := by
  refine fun o ho => ⟨fun s hs => ?_, fun s hs => ((h o ho).closes s hs).weaken hle hle'⟩
  rw [← hroot]
  exact ((h o ho).changes s hs).imp_right (·.imp_right (·.weaken hle hle'))

/-- Two stretches in a row that stay within the stack. -/
theorem append (h : Stays stack m before m') (h' : Stays stack m after m') :
    Stays stack m (before ++ after) m' :=
  fun o ho => (List.mem_append.1 ho).elim (h o) (h' o)

/-- What changes no scope at all. -/
theorem of_changesOf (h : ∀ o ∈ happened, ∀ s, o.changesOf s = []) : Stays stack m happened m' :=
  fun o ho => ⟨fun s hs => absurd (h o ho s) hs, fun s ⟨c, hc, _⟩ => by
    rw [h o ho s] at hc
    exact absurd hc List.not_mem_nil⟩

/-- A change of one scope. -/
theorem change {s : ScopeId} {c : Change} (hs : s ∈ stack.scopes ∨ s = m.root ∨ Opened m m' s)
    (hc : c.closes → Opened m m' s) : Stays stack m [.changed s c] m' := by
  intro o ho
  rw [List.mem_singleton.1 ho]
  constructor
  · intro t ht
    by_cases hst : s = t
    · exact hst ▸ hs
    · exact absurd (if_neg hst) ht
  · rintro t ⟨d, hd, hcloses⟩
    by_cases hst : s = t
    · rw [Occurrence.changesOf, if_pos hst, List.mem_singleton] at hd
      exact hst ▸ hc (hd ▸ hcloses)
    · rw [Occurrence.changesOf, if_neg hst] at hd
      exact absurd hd List.not_mem_nil

/-- Exporting values to scopes closes none. -/
theorem published {scopes : List ScopeId} {values : Dict String Value}
    (h : ∀ s ∈ scopes, s ∈ stack.scopes ∨ s = m.root) :
    Stays stack m [.published scopes values] m' := by
  intro o ho
  rw [List.mem_singleton.1 ho]
  constructor
  · intro s hs
    have hmem : s ∈ scopes := List.count_pos_iff.1 (Nat.pos_of_ne_zero fun hzero => hs (by
      rw [Occurrence.changesOf, hzero, List.replicate_zero]))
    exact (h s hmem).imp_right .inl
  · rintro s ⟨c, hc, hcloses⟩
    rw [(List.mem_replicate.1 hc).2] at hcloses
    cases hcloses

/-- What comes from outside goes to the tree, and closes nothing. -/
theorem foreign (h : ∀ o ∈ happened, o.IsForeign m.root) : Stays stack m happened m' := by
  intro o ho
  have hforeign := h o ho
  have hsingle : Stays stack m [o] m' := by
    cases o with
    | interrupted | cancelled =>
      refine of_changesOf fun o ho s => ?_
      rw [List.mem_singleton.1 ho]
      rfl
    | published scopes values =>
      obtain rfl : scopes = [m.root] := hforeign
      exact published fun s hs => .inr (List.mem_singleton.1 hs)
    | opened | changed | called => exact absurd hforeign id
  exact hsingle o (List.mem_singleton_self o)

/-- What is published goes to the scopes of the stack. -/
theorem publication (values : Dict String Value) :
    Stays stack m (Occurrence.publication stack.scopes values) m' := by
  intro o ho
  rw [Occurrence.eq_of_mem_publication ho]
  exact published (fun _ hs => .inl hs) _ (List.mem_singleton_self _)

/-- Scopes outside are left alone. -/
theorem untouched (h : Stays stack m happened m') {s : ScopeId} (hs : s ∉ stack.scopes)
    (hroot : s ≠ m.root) (hout : ¬ Opened m m' s) :
    happened.flatMap (Occurrence.changesOf s) = [] := by
  refine List.flatMap_eq_nil_iff.2 fun o ho => Classical.byContradiction fun hne => ?_
  exact ((h o ho).changes s hne).elim hs (·.elim hroot hout)

/-- A scope that is not opened in a stretch is not closed in it. -/
theorem leavesOpen (h : Stays stack m happened m') {s : ScopeId} (hout : ¬ Opened m m' s) :
    LeavesOpen s happened := by
  refine fun o ho c hc => Bool.eq_false_iff.2 fun hcloses => ?_
  exact hout ((h o ho).closes s ⟨c, hc, hcloses⟩)

/-- A scope that is not opened in a stretch keeps its error. -/
theorem error_eq {backend : Backend} {seed : Dict String Value} (h : Stays stack m happened m')
    (hext : Extends backend m happened m') (hm : m.Sound backend seed) {s : ScopeId}
    (hout : ¬ Opened m m' s) : (m'.store.scope s).error = (m.store.scope s).error :=
  (h.leavesOpen hout).error_eq hext hm

end Stays

/-! ### Executions -/

variable {x : Execution} {frame : Frame} {m m₁ m' : Machine} {happened : List Occurrence}

/-- The innermost scope is one of the stack. -/
theorem Frame.top_mem (frame : Frame) : frame.top ∈ frame.stack.scopes := List.mem_cons_self

/-- A change of the innermost scope of a frame. -/
theorem Stays.changeTop {c : Change} (hc : c.closes = false) :
    Stays frame.stack m [.changed frame.top c] m' :=
  .change (.inl frame.top_mem) fun h => by rw [hc] at h; cases h

/-- A wait, with the change before it. -/
theorem Awaited.stays {c : Change} {id : String} {limit : Nat} {tokens : List String}
    {answer : Except WaitError (List Value)} (hm : m.Ready frame)
    (h : Awaited frame id limit tokens (m.change frame.top c) happened answer m₁)
    (hc : c.closes = false) : Stays frame.stack m ([.changed frame.top c] ++ happened) m' :=
  (Stays.changeTop hc).append (.foreign (h.foreign_after hm))

/-- An action stays within the stack. -/
theorem Acts.stays {id urn : String} {params exports : Dict String String} {outcome : Outcome}
    (h : Acts x frame id urn params exports m happened outcome m') (hm : m.Ready frame) :
    Stays frame.stack m happened m' := by
  have hcalled : ∀ {c : ActionCall} {answer : Except ActionError ActionResult}
      {heard : List Occurrence}, (∀ o ∈ heard, o.IsForeign m.root) →
        Stays frame.stack m ([.called frame.top id c answer] ++ heard) m' := by
    refine fun hheard => Stays.append (.of_changesOf fun o ho s => ?_) (.foreign hheard)
    rw [List.mem_singleton.1 ho]
    rfl
  cases h with
  | starved hw => exact (hw.stays hm rfl).append (.changeTop rfl)
  | failed hw hcall =>
    exact (((hw.stays hm rfl).append (.changeTop rfl)).append
      (hcalled (hw.heard_foreign hm hcall))).append (.changeTop rfl)
  | done hw hcall =>
    exact ((((hw.stays hm rfl).append (.changeTop rfl)).append
      (hcalled (hw.heard_foreign hm hcall))).append (.publication _)).append (.changeTop rfl)

/-- Deciding stays within the stack. -/
theorem Decides.stays {id condition : String} {answer : Except Failure Bool}
    (h : Decides x frame id condition m happened answer m') (hm : m.Ready frame) :
    Stays frame.stack m happened m' := by
  cases h with
  | malformed => exact (Stays.changeTop rfl).append (.changeTop rfl)
  | starved _ hw | undecidable _ hw | decided _ hw =>
    exact (hw.stays hm rfl).append (.changeTop rfl)

/-- An iteration stays within the frame of its loop; it may close its own scope. -/
theorem Stays.round {id : String} {itemAs : Option String} {index : Nat} {v : Value}
    {closing : List Occurrence} (hroot : (m.openIteration frame id itemAs index v).root = m.root)
    (h : Stays (frame.inner id index m.store.size).stack
      (m.openIteration frame id itemAs index v) happened m₁)
    (hle : (m.openIteration frame id itemAs index v).store.size ≤ m₁.store.size)
    (hend : m'.store.size = m₁.store.size)
    (hclosing : Opened m m' m.store.size → Stays frame.stack m closing m') :
    Stays frame.stack m (openingOf frame id itemAs index v m.store.size ++ happened ++ closing)
      m' := by
  have hsize := size_openIteration m frame id itemAs index v
  have hlt : m.store.size < m'.store.size := by omega
  have hopened : Opened m m' m.store.size := ⟨Nat.le_refl _, hlt⟩
  refine (Stays.append (.append (.append ?_ (.changeTop rfl)) ?_) ?_).append (hclosing hopened)
  · refine .of_changesOf fun o ho s => ?_
    rw [List.mem_singleton.1 ho]
    rfl
  · intro o ho
    obtain ⟨name, -, rfl⟩ := List.mem_map.1 ho
    exact Stays.change (.inr (.inr hopened)) (fun h => by cases h) _ (List.mem_singleton_self _)
  · -- The stack within the iteration is the one around it, with the new scope on top.
    have hinner : Stays (frame.inner id index m.store.size).stack m happened m' :=
      h.weaken hroot (by omega) (Nat.le_of_eq hend.symm)
    refine fun o ho => ⟨fun s hs => ?_, (hinner o ho).closes⟩
    rcases (hinner o ho).changes s hs with hmem | hrest
    · rcases List.mem_cons.1 hmem with rfl | hmem
      · exact .inr (.inr hopened)
      · exact .inl hmem
    · exact .inr hrest

/-- **Scopes.** Executions stay within their stack and the scopes opened for them. -/
theorem Exec.stays {task : Task} {outcome : Outcome}
    (h : Exec x frame task m happened outcome m') (hm : m.Ready frame) :
    Stays frame.stack m happened m' := by
  induction h with
  | nil | stopped | noRounds => exact fun o ho => absurd ho List.not_mem_nil
  | failed _ _ ih | lastRound _ ih => exact ih hm
  | cons _ h h' ih ih' | nextRound h h' ih ih' =>
    have hext := h.extends hm
    have hready := hext.ready hm
    -- The scopes opened by the first part are below those of the second.
    exact ((ih hm).weaken rfl (Nat.le_refl _) (h'.extends hready).size_le).append
      ((ih' hready).weaken hext.root hext.size_le (Nat.le_refl _))
  | action h => exact h.stays hm
  | undecided h => exact h.stays hm
  | decided h h' ih =>
    have hext := h.extends hm
    have hready := hext.ready hm
    exact ((h.stays hm).weaken rfl (Nat.le_refl _) (h'.extends hready).size_le).append
      ((ih hready).weaken hext.root hext.size_le (Nat.le_refl _))
  | starved hw => exact (hw.stays hm rfl).append (.changeTop rfl)
  | broken hw _ ih =>
    have hext := hw.extends_after x.backend hm
    exact (hw.stays hm rfl).append
      ((ih (hext.ready hm)).weaken hext.root hext.size_le (Nat.le_refl _))
  | finished hw _ ih =>
    have hext := hw.extends_after x.backend hm
    exact ((hw.stays hm rfl).append ((ih (hext.ready hm)).weaken hext.root hext.size_le
      (Nat.le_of_eq (Machine.size_change _ _ _).symm))).append (.changeTop rfl)
  | refused => exact .changeTop rfl
  | completed _ h ih | passed _ h _ _ ih =>
    obtain ⟨hopen, hready⟩ := extends_openIteration x.backend hm _ _ _ _
    -- The scope of a round is closed by the round itself, which has opened it.
    exact .round hopen.root (ih hready) (h.extends hready).size_le (Machine.size_change _ _ _)
      fun hopened => .change (.inr (.inr hopened)) fun _ => hopened
  | halted _ h _ _ ih =>
    obtain ⟨hopen, hready⟩ := extends_openIteration x.backend hm _ _ _ _
    rw [List.append_assoc]
    exact .round hopen.root (ih hready) (h.extends hready).size_le
      ((Machine.size_change _ _ _).trans (Machine.size_change _ _ _)) fun hopened =>
        (Stays.change (.inr (.inr hopened)) fun _ => hopened).append (.changeTop rfl)
  | interrupted _ h ih =>
    obtain ⟨hopen, hready⟩ := extends_openIteration x.backend hm _ _ _ _
    exact .round hopen.root (ih hready) (h.extends hready).size_le (Machine.size_change _ _ _)
      fun _ => .changeTop rfl

end Runbook
