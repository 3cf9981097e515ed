import Runbook.Proofs.Run.Stories

namespace Runbook

/-!
# Running a graph — stories and records

The records of a node are what the story of the node leaves behind.  Nothing else that happens in a
run touches them, so they are computed from the story alone.

* `Scope.recordsOf` — all that is on record of a node in a scope;
* `Machine.Sound.recordsOf`, `Extends.recordsOf` — what is about a node leaves its records behind;
* `recordsOf_starved`, `recordsOf_failed`, `recordsOf_done` — the records of actions;
* `recordsOf_undecided`, `recordsOf_decided` — the records of choices;
* `LoopRecord.over`, `recordsOf_loop` — the record of a loop that is over, whose history lists all
  of its iterations.

A story makes the record of its node anew, so nothing is left of what an earlier run has put there.
-/

/-! ### The records of a node -/

namespace Scope

/-- All that is on record of a node. -/
def recordsOf (s : Scope) (id : String) :
    Option ActionRecord × Option ChoiceRecord × Option LoopRecord :=
  (s.actions.get? id, s.choices.get? id, s.loops.get? id)

variable {s s' : Scope} {id : String}

/-- A change of one action's record leaves other nodes alone, and other kinds of records. -/
theorem recordsOf_updateAction (s : Scope) (id id' : String) (f : ActionRecord → ActionRecord) :
    (s.updateAction id' f).recordsOf id =
      if id = id' then (some (f ((s.recordsOf id).1.getD {})), (s.recordsOf id).2)
      else s.recordsOf id := by
  show ((s.actions.update id' {} f).get? id, _) = _
  rw [Dict.get?_update]
  by_cases h : id = id'
  · subst h
    rw [if_pos rfl, if_pos rfl]
    rfl
  · rw [if_neg h, if_neg h]
    rfl

/-- A change of one choice's record leaves other nodes alone, and other kinds of records. -/
theorem recordsOf_updateChoice (s : Scope) (id id' : String) (f : ChoiceRecord → ChoiceRecord) :
    (s.updateChoice id' f).recordsOf id =
      if id = id' then
        ((s.recordsOf id).1, some (f ((s.recordsOf id).2.1.getD {})), (s.recordsOf id).2.2)
      else s.recordsOf id := by
  show (_, (s.choices.update id' {} f).get? id, _) = _
  rw [Dict.get?_update]
  by_cases h : id = id'
  · subst h
    rw [if_pos rfl, if_pos rfl]
    rfl
  · rw [if_neg h, if_neg h]
    rfl

/-- A change of one loop's record leaves other nodes alone, and other kinds of records. -/
theorem recordsOf_updateLoop (s : Scope) (id id' : String) (f : LoopRecord → LoopRecord) :
    (s.updateLoop id' f).recordsOf id =
      if id = id' then
        ((s.recordsOf id).1, (s.recordsOf id).2.1,
          some (f ((s.recordsOf id).2.2.getD { waiting := false })))
      else s.recordsOf id := by
  show (_, _, (s.loops.update id' _ f).get? id) = _
  rw [Dict.get?_update]
  by_cases h : id = id'
  · subst h
    rw [if_pos rfl, if_pos rfl]
    rfl
  · rw [if_neg h, if_neg h]
    rfl

/-- A change that is not about a node leaves what is on record of it alone. -/
theorem recordsOf_apply_of_node? (s : Scope) {c : Change} (h : c.node? ≠ some id) :
    (s.apply c).recordsOf id = s.recordsOf id := by
  have hne : ∀ id', c.node? = some id' → id ≠ id' := fun id' hid heq => h (heq ▸ hid)
  cases c with
  | publish | close | closeWithError => rfl
  | startAction id' =>
    exact (recordsOf_updateAction s id id' fun _ => _).trans (if_neg (hne id' rfl))
  | recordParams id' | completeAction id' | failAction id' =>
    exact (recordsOf_updateAction s id id' _).trans (if_neg (hne id' rfl))
  | startChoice id' =>
    exact (recordsOf_updateChoice s id id' fun _ => _).trans (if_neg (hne id' rfl))
  | decideChoice id' | failChoice id' =>
    exact (recordsOf_updateChoice s id id' _).trans (if_neg (hne id' rfl))
  | startLoop id' =>
    exact (recordsOf_updateLoop s id id' fun _ => _).trans (if_neg (hne id' rfl))
  | startIteration id' | failLoop id' =>
    exact (recordsOf_updateLoop s id id' _).trans (if_neg (hne id' rfl))
  | finishLoop id' =>
    show Scope.recordsOf (if s.loops.contains id' then _ else s) id = _
    -- A loop that was not started is not finished either.
    by_cases hid : s.loops.contains id'
    · rw [if_pos hid]
      exact (recordsOf_updateLoop s id id' _).trans (if_neg (hne id' rfl))
    · rw [if_neg hid]

/-- What a change makes of the records of a node depends on nothing but these. -/
theorem recordsOf_apply_congr (h : s.recordsOf id = s'.recordsOf id) (c : Change) :
    (s.apply c).recordsOf id = (s'.apply c).recordsOf id := by
  have haction : ∀ id' f,
      (s.updateAction id' f).recordsOf id = (s'.updateAction id' f).recordsOf id := by
    intro id' f
    rw [recordsOf_updateAction, recordsOf_updateAction, h]
  have hchoice : ∀ id' f,
      (s.updateChoice id' f).recordsOf id = (s'.updateChoice id' f).recordsOf id := by
    intro id' f
    rw [recordsOf_updateChoice, recordsOf_updateChoice, h]
  have hloop : ∀ id' f,
      (s.updateLoop id' f).recordsOf id = (s'.updateLoop id' f).recordsOf id := by
    intro id' f
    rw [recordsOf_updateLoop, recordsOf_updateLoop, h]
  -- A change about another node is none of this node's concern, on both sides.
  by_cases hnode : c.node? = some id
  case neg => rw [recordsOf_apply_of_node? s hnode, recordsOf_apply_of_node? s' hnode, h]
  cases c with
  | publish | close | closeWithError => cases hnode
  | startAction id' => exact haction id' fun _ => _
  | recordParams id' | completeAction id' | failAction id' => exact haction id' _
  | startChoice id' => exact hchoice id' fun _ => _
  | decideChoice id' | failChoice id' => exact hchoice id' _
  | startLoop id' => exact hloop id' fun _ => _
  | startIteration id' | failLoop id' => exact hloop id' _
  | finishLoop id' =>
    obtain rfl : id' = id := Option.some.inj hnode
    have hthere : s.loops.contains id' = s'.loops.contains id' :=
      congrArg Option.isSome (congrArg (fun r => r.2.2) h : s.loops.get? id' = s'.loops.get? id')
    show Scope.recordsOf (if s.loops.contains id' then _ else s) id' =
      Scope.recordsOf (if s'.loops.contains id' then _ else s') id'
    rw [hthere]
    by_cases hid : s'.loops.contains id'
    · rw [if_pos hid, if_pos hid]
      exact hloop id' _
    · rw [if_neg hid, if_neg hid, h]

/-- **Frame.** Only the changes about a node count for what is on record of it. -/
theorem recordsOf_foldl (h : s.recordsOf id = s'.recordsOf id) (cs : List Change) :
    (cs.foldl Scope.apply s).recordsOf id =
      ((cs.filter fun c => c.node? = some id).foldl Scope.apply s').recordsOf id := by
  induction cs generalizing s s' with
  | nil => exact h
  | cons c rest ih =>
    rw [List.foldl_cons]
    -- A change that is left out leaves the records alone, one that is kept acts on equal records.
    by_cases hc : c.node? = some id
    · rw [List.filter_cons_of_pos (by simpa using hc), List.foldl_cons]
      exact ih (recordsOf_apply_congr h c)
    · rw [List.filter_cons_of_neg (by simpa using hc)]
      exact ih ((recordsOf_apply_of_node? s hc).trans h)

end Scope

/-! ### What a story leaves behind -/

/-- The changes about a node are made by what is about the node. -/
theorem Occurrence.filter_changesOf (s : ScopeId) (id : String) (o : Occurrence) :
    (o.changesOf s).filter (fun c => c.node? = some id) =
      if o.about? = some (s, id) then o.changesOf s else [] := by
  cases o with
  | changed t c =>
    -- Only a change of this very scope is listed.
    by_cases ht : t = s
    · subst ht
      rw [changesOf, if_pos rfl]
      by_cases hc : c.node? = some id <;> simp [about?, hc]
    · have hne : (Occurrence.changed t c).about? ≠ some (s, id) := by
        simp [about?, ht]
      rw [changesOf, if_neg ht, if_neg hne]
      rfl
  | published scopes values =>
    rw [if_neg (by simp [about?]), List.filter_eq_nil_iff]
    intro c hc
    rw [(List.mem_replicate.1 hc).2]
    simp [Change.node?]
  | _ => simp [changesOf]

/-- The changes of a scope about a node are those made by what is about the node. -/
theorem filter_flatMap_changesOf (s : ScopeId) (id : String) (happened : List Occurrence) :
    (happened.flatMap (Occurrence.changesOf s)).filter (fun c => c.node? = some id) =
      (aboutNode s id happened).flatMap (Occurrence.changesOf s) := by
  rw [List.filter_flatMap, funext (Occurrence.filter_changesOf s id), aboutNode]
  induction happened with
  | nil => rfl
  | cons o rest ih =>
    rw [List.flatMap_cons, ih]
    by_cases ho : o.about? = some (s, id) <;> simp [ho]

/-- What a story makes of a scope. -/
def Scope.after (before : Scope) (s : ScopeId) (story : List Occurrence) : Scope :=
  (story.flatMap (Occurrence.changesOf s)).foldl Scope.apply before

/-- The scope that a story leaves behind where nothing was before. -/
def Scope.leftBy (s : ScopeId) (story : List Occurrence) : Scope :=
  (story.flatMap (Occurrence.changesOf s)).foldl Scope.apply {}

/-- `Scope.leftBy` starts from a scope without records. -/
theorem Scope.leftBy_eq_after (s : ScopeId) (story : List Occurrence) :
    Scope.leftBy s story = Scope.after {} s story := rfl

/-- A new scope has no records. -/
theorem recordsOf_initial (seed : Dict String Value) (s : ScopeId) (id : String) :
    (Scope.initial seed s).recordsOf id = (none, none, none) := by
  unfold Scope.initial
  by_cases hs : s = 0
  · rw [if_pos hs]
    rfl
  · rw [if_neg hs]
    rfl

/-- **Stories and records.** What is on record of a node is left behind by what is about it. -/
theorem recordsOf_told (seed : Dict String Value) (course : List Occurrence) (s : ScopeId)
    (id : String) :
    (Scope.told seed course s).recordsOf id =
      (Scope.leftBy s (aboutNode s id course)).recordsOf id := by
  have hinitial : (Scope.initial seed s).recordsOf id = Scope.recordsOf {} id :=
    recordsOf_initial seed s id
  rw [Scope.told, Scope.recordsOf_foldl hinitial, filter_flatMap_changesOf, Scope.leftBy]

/-- All that is on record of a node comes from what is about the node in the course. -/
theorem Machine.Sound.recordsOf {backend : Backend} {seed : Dict String Value} {m : Machine}
    (h : m.Sound backend seed) (s : ScopeId) (id : String) :
    (m.store.scope s).recordsOf id =
      (Scope.leftBy s (aboutNode s id m.course)).recordsOf id := by
  rw [h.told, recordsOf_told]

/-- What is on record of a node after a stretch of a run comes from what is about the node there. -/
theorem Extends.recordsOf {backend : Backend} {seed : Dict String Value} {m m' : Machine}
    {happened : List Occurrence} (h : Extends backend m happened m') (hm : m.Sound backend seed)
    (s : ScopeId) (id : String) :
    (m'.store.scope s).recordsOf id =
      ((m.store.scope s).after s (aboutNode s id happened)).recordsOf id := by
  rw [h.scope hm, Scope.recordsOf_foldl rfl, filter_flatMap_changesOf, Scope.after]

/-! ### Actions -/

/-- What is on record of an action that was never called. -/
def ActionRecord.uncalled (reason : String) : ActionRecord :=
  { done := true, error := some reason }

/-- What is on record of an action that was called. -/
def ActionRecord.answered (inputs : Dict String String) :
    Except ActionError ActionResult → ActionRecord
  | .ok result => { done := true, params := inputs, result := some result }
  | .error e => { done := true, params := inputs, error := some e.message }

/-- A failed action has the message of its error on record. -/
theorem recordText_actionFailed (id : String) (e : ActionError) :
    (Failure.actionFailed id e).recordText = e.message := rfl

section

variable (before : Scope) (s : ScopeId) (id : String)

/-- An action that gets no input is on record as `ActionRecord.uncalled`. -/
theorem recordsOf_starved (reason : String) :
    (before.after s [.changed s (.startAction id), .changed s (.failAction id reason)]).recordsOf
      id = (some (.uncalled reason), (before.recordsOf id).2) := by
  simp [Scope.after, Occurrence.changesOf, Scope.apply, Scope.change, Scope.recordsOf,
    Scope.updateAction, ActionRecord.uncalled]

/-- An action whose call fails is on record as `ActionRecord.answered` with the error. -/
theorem recordsOf_failed (urn : String) (inputs : Dict String String) (e : ActionError) :
    (before.after s
      [.changed s (.startAction id), .changed s (.recordParams id inputs true),
        .called s id ⟨urn, inputs⟩ (.error e),
        .changed s (.failAction id (Failure.actionFailed id e).recordText)]).recordsOf id =
      (some (.answered inputs (.error e)), (before.recordsOf id).2) := by
  simp [Scope.after, Occurrence.changesOf, Scope.apply, Scope.change, Scope.recordsOf,
    Scope.updateAction, ActionRecord.answered, recordText_actionFailed]

/-- An action whose call goes well is on record as `ActionRecord.answered` with the result. -/
theorem recordsOf_done (urn : String) (inputs : Dict String String) (result : ActionResult)
    (exports : Dict String Value) :
    (before.after s
      [.changed s (.startAction id), .changed s (.recordParams id inputs true),
        .called s id ⟨urn, inputs⟩ (.ok result),
        .changed s (.completeAction id result exports)]).recordsOf id =
      (some (.answered inputs (.ok result)), (before.recordsOf id).2) := by
  simp [Scope.after, Occurrence.changesOf, Scope.apply, Scope.change, Scope.recordsOf,
    Scope.updateAction, Scope.addExports, ActionRecord.answered]

/-! ### Choices -/

/-- A choice that is not decided is on record with the reason. -/
theorem recordsOf_undecided (reason : String) :
    (before.after s [.changed s (.startChoice id), .changed s (.failChoice id reason)]).recordsOf
      id = ((before.recordsOf id).1, some { done := true, error := some reason },
        (before.recordsOf id).2.2) := by
  simp [Scope.after, Occurrence.changesOf, Scope.apply, Scope.change, Scope.recordsOf,
    Scope.updateChoice]

/-- A choice that is decided is on record with its outcome and with what it used. -/
theorem recordsOf_decided (b : Bool) (used : Dict String String) :
    (before.after s [.changed s (.startChoice id), .changed s (.decideChoice id b used)]).recordsOf
      id = ((before.recordsOf id).1, some { done := true, outcome := some b, used := used },
        (before.recordsOf id).2.2) := by
  simp [Scope.after, Occurrence.changesOf, Scope.apply, Scope.change, Scope.recordsOf,
    Scope.updateChoice]

end

/-! ### Loops -/

/-- Iterations under their numbers, counted from 1. -/
def numbered (its : List Iteration) : List (Int × Iteration) :=
  (its.zipIdx 1).map fun p => ((p.2 : Int), p.1)

/-- One more iteration has the next number. -/
theorem numbered_concat (its : List Iteration) (i : Iteration) :
    numbered (its ++ [i]) = numbered its ++ [(((its.length + 1 : Nat) : Int), i)] := by
  rw [numbered, List.zipIdx_append, List.map_append, Nat.add_comm]
  rfl

/-- Every iteration has a number. -/
theorem mem_numbered {its : List Iteration} {i : Iteration} (h : i ∈ its) :
    ∃ k, (k, i) ∈ numbered its := by
  obtain ⟨k, hk⟩ := List.mem_iff_getElem?.1 h
  have hmem : (i, 1 + k) ∈ its.zipIdx 1 :=
    List.mem_zipIdx_iff_le_and_getElem?_sub.2 ⟨Nat.le_add_right 1 k, by simpa using hk⟩
  exact ⟨_, List.mem_map_of_mem hmem⟩

/-- Numbers increase. -/
theorem pairwise_numbered (its : List Iteration) :
    (numbered its).Pairwise fun a b => a.1 < b.1 := by
  have hkeys : ((its.zipIdx 1).map Prod.snd).Pairwise (· < ·) := by
    rw [List.zipIdx_map_snd]
    exact List.pairwise_lt_range' 1
  exact List.pairwise_map.2 ((List.pairwise_map.1 hkeys).imp Int.ofNat_lt.2)

/-- The history of a loop that has gone through some iterations. -/
def historyOf (its : List Iteration) : Dict Int Iteration := .ofList (numbered its)

/-- Numbers grow along the list, so the history lists iterations in their order. -/
theorem entries_historyOf (its : List Iteration) : (historyOf its).entries = numbered its :=
  Dict.entries_foldl_insert ∅ (by simpa using pairwise_numbered its)

/-- One more iteration is one more entry of the history. -/
theorem historyOf_concat (its : List Iteration) (i : Iteration) :
    historyOf (its ++ [i]) = (historyOf its).insert ((its.length + 1 : Nat) : Int) i := by
  rw [historyOf, Dict.ofList, numbered_concat, List.foldl_append]
  rfl

/-- The number of the last iteration, -1 if there is none. -/
def lastIndex (its : List Iteration) : Int := if its.isEmpty then -1 else its.length

/-- What is on record of a loop in its last iteration so far, or before the first. -/
def LoopRecord.amid (its : List Iteration) : LoopRecord where
  waiting := its.isEmpty
  index := lastIndex its
  current := its.getLast?
  history := historyOf its.dropLast

/-- What is on record of a loop that is over. -/
def LoopRecord.over (its : List Iteration) (error : Option String) : LoopRecord where
  waiting := false
  done := true
  error := error
  index := lastIndex its
  current := its.getLast?
  history := historyOf its

/-- Once the current iteration is over as well, the history lists all of them. -/
theorem LoopRecord.freeze_amid (its : List Iteration) :
    (amid its).freeze = { amid its with history := historyOf its } := by
  rcases List.eq_nil_or_concat its with rfl | ⟨init, i, rfl⟩
  · rfl
  · simp [freeze, amid, lastIndex, historyOf_concat]

/-- Iterations are gone through one after the other. -/
theorem recordsOf_iterationsOf {s : ScopeId} {id : String} (its : List Iteration) :
    ∀ {before : List Iteration} {scope : Scope},
      (scope.recordsOf id).2.2 = some (.amid before) →
      (((iterationsOf s id (before.length + 1) its).flatMap (Occurrence.changesOf s)).foldl
        Scope.apply scope).recordsOf id =
          ((scope.recordsOf id).1, (scope.recordsOf id).2.1, some (.amid (before ++ its))) := by
  induction its with
  | nil =>
    intro before scope hr
    rw [List.append_nil, ← hr]
    rfl
  | cons i rest ih =>
    intro before scope hr
    have hstart : (scope.apply
        (.startIteration id (before.length + 1 : Nat) i.value i.scope)).recordsOf id =
        ((scope.recordsOf id).1, (scope.recordsOf id).2.1, some (.amid (before ++ [i]))) := by
      refine (Scope.recordsOf_updateLoop scope id id _).trans ?_
      rw [if_pos rfl, hr, Option.getD_some, LoopRecord.freeze_amid]
      simp [LoopRecord.amid, lastIndex]
    -- The invariant is that the record is the one amid the iterations so far.
    have hrest := ih (congrArg (fun records => records.2.2) hstart)
    rw [hstart, List.length_append, List.length_singleton, List.append_assoc] at hrest
    rw [iterationsOf, List.flatMap_cons, Occurrence.changesOf, if_pos rfl, List.foldl_append]
    exact hrest

/-- The end of a loop puts its current iteration into the history. -/
theorem recordsOf_ending {scope : Scope} {id : String} {its : List Iteration} {c : Change}
    (h : (scope.recordsOf id).2.2 = some (.amid its))
    (hc : c = .finishLoop id ∨ ∃ reason, c = .failLoop id reason) :
    (scope.apply c).recordsOf id =
      ((scope.recordsOf id).1, (scope.recordsOf id).2.1,
        some (.over its (c.failure?.map Prod.snd))) := by
  rcases hc with rfl | ⟨reason, rfl⟩
  · have hthere : scope.loops.contains id := congrArg Option.isSome h
    show Scope.recordsOf (if scope.loops.contains id then _ else scope) id = _
    rw [if_pos hthere]
    refine (Scope.recordsOf_updateLoop scope id id _).trans ?_
    rw [if_pos rfl, h, Option.getD_some, LoopRecord.freeze_amid]
    rfl
  · refine (Scope.recordsOf_updateLoop scope id id _).trans ?_
    rw [if_pos rfl, h, Option.getD_some, LoopRecord.freeze_amid]
    rfl

/-- **Histories.** What is on record of a loop that is over lists all of its iterations. -/
theorem recordsOf_loop (before : Scope) {s : ScopeId} {id : String} {c : Change}
    (hc : c = .finishLoop id ∨ ∃ reason, c = .failLoop id reason) (its : List Iteration) :
    (before.after s ([.changed s (.startLoop id true)] ++ iterationsOf s id 1 its ++
      [.changed s c])).recordsOf id =
        ((before.recordsOf id).1, (before.recordsOf id).2.1,
          some (.over its (c.failure?.map Prod.snd))) := by
  have hstart : (before.apply (.startLoop id true)).recordsOf id =
      ((before.recordsOf id).1, (before.recordsOf id).2.1, some (.amid [])) :=
    (Scope.recordsOf_updateLoop before id id fun _ => _).trans (if_pos rfl)
  have hits := recordsOf_iterationsOf (s := s) its (congrArg (fun records => records.2.2) hstart)
  have hend := recordsOf_ending (congrArg (fun records => records.2.2) hits) hc
  rw [hits, hstart] at hend
  rw [Scope.after, List.flatMap_append, List.flatMap_append, List.foldl_append,
    List.foldl_append, List.flatMap_singleton, List.flatMap_singleton, Occurrence.changesOf,
    if_pos rfl, Occurrence.changesOf, if_pos rfl]
  exact hend

end Runbook
