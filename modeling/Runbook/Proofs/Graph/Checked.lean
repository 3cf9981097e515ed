import Runbook.Proofs.Graph.Build

namespace Runbook

/-!
# Runbook graphs — what the checks are good for

A run takes the urns, conditions and elements of its nodes as they are.  This file says what it may
rely on, once a graph was built:

* `Node.Checked` — an action has a urn, a condition is well formed, elements are to be looked up;
* `Graph.Clears` — what is known after a stretch of building that has found no error;
* `checked_of_build` — all nodes of a graph that was built are checked, at whatever depth.
-/

/-- What was checked of a node when its graph was built. -/
def Node.Checked : Node → Prop
  | .action _ urn _ _ => urn ≠ "" ∧ Text.trim urn = urn
  | .choice _ condition _ _ => ∃ c, Condition.parse condition = .ok c
  | .loop _ elements _ _ => Reference.needsLookup elements = true

namespace Graph

/-! ### Stretches without errors -/

/-- What is known after a stretch of building, if it has found no error. -/
def Clears (d d' : Sketch) (known : Prop) : Prop :=
  ∃ new, d'.found = new ++ d.found ∧ (Issue.hasErrors new = false → known)

variable {d d' d₁ d₂ d₃ : Sketch} {p q : Prop}

/-- `Made` without the ids. -/
theorem Made.clears {ids : List String} (h : Made d d' ids p) : Clears d d' p := by
  obtain ⟨new, hfound, hmade⟩ := h
  exact ⟨new, hfound, fun herr => (hmade herr).1⟩

namespace Clears

/-- After two stretches without errors, what is known after each of them is known. -/
theorem trans (h : Clears d₁ d₂ p) (h' : Clears d₂ d₃ q) : Clears d₁ d₃ (p ∧ q) := by
  obtain ⟨new, hfound, hp⟩ := h
  obtain ⟨new', hfound', hq⟩ := h'
  refine ⟨new' ++ new, by rw [hfound', hfound, List.append_assoc], fun herr => ?_⟩
  rw [Issue.hasErrors, List.any_append, Bool.or_eq_false_iff] at herr
  exact ⟨hp herr.2, hq herr.1⟩

/-- `Clears` is monotone in what is known. -/
theorem imp (h : Clears d d' p) (hpq : p → q) : Clears d d' q := by
  obtain ⟨new, hfound, hp⟩ := h
  exact ⟨new, hfound, fun herr => hpq (hp herr)⟩

/-- Anything is known after an error. -/
theorem report (d : Sketch) (id kind : String) (location : Location) (message reference : String)
    (p : Prop) : Clears d ((report id (.error kind location message reference)).run d).2 p :=
  ⟨[_], rfl, fun herr => absurd herr (by simp [Issue.hasErrors, Issue.isError, Issue.error])⟩

end Clears

/-! ### Checks -/

/-- `Graph.trimmed` leaves no blanks to take off. -/
theorem trim_trimmed (s : Option String) : Text.trim (trimmed s) = trimmed s := by
  cases s with
  | none => rfl
  | some s => exact Text.trim_trim s

/-- Without errors the urn of an action is not empty. -/
theorem checkAction_clears (id : String) (location : Location) (urn : String)
    (params : Dict String String) (d : Sketch) :
    Clears d ((checkAction id location urn params).run d).2 (urn ≠ "") := by
  by_cases hempty : urn = ""
  · -- The parameters are checked all the same, after the error.
    have hparams : Silent (params.entries.forM fun p =>
        checkReference id ((location.key "params").key p.1) p.2) :=
      silent_forM (fun _ => silent_checkReference _ _ _) _
    rw [checkAction, if_pos (by rw [hempty]; rfl), run_bind]
    have hreport := Clears.report d id "missing_field" (location.key "urn")
      "execute node requires a non-empty urn" "node.execute.urn" (urn ≠ "")
    exact (hreport.trans (hparams _).clears).imp And.left
  · exact (silent_checkAction id location urn params d).clears.imp fun _ => hempty

/-- Without errors the condition of a choice can be read. -/
theorem checkCondition_clears (id : String) (location : Location) (condition : String)
    (d : Sketch) :
    Clears d ((checkCondition id location condition).run d).2
      (∃ c, Condition.parse condition = .ok c) := by
  cases hparse : Comparison.parse condition with
  | ok c =>
    have hcondition : Condition.parse condition = .ok ⟨c, ∅⟩ := by rw [Condition.parse, hparse]; rfl
    exact (silent_checkCondition id location condition d).clears.imp fun _ => ⟨_, hcondition⟩
  | error e =>
    unfold checkCondition
    split
    · exact .report ..
    · rw [hparse]
      exact .report ..

/-- Without errors the elements of a loop are a reference. -/
theorem checkElements_clears (id : String) (location : Location) (elements : String) (d : Sketch) :
    Clears d ((checkElements id location elements).run d).2
      (Reference.needsLookup elements = true) := by
  by_cases hlookup : Reference.needsLookup elements = true
  · exact (silent_checkElements id location elements d).clears.imp fun _ => hlookup
  · unfold checkElements
    split
    · exact .report ..
    · exact .report ..

/-! ### Nodes -/

mutual

/-- `chain_clears` for a single step: the node and all nodes inside it are `Node.Checked`. -/
theorem node_clears (location : Location) : ∀ (s : Step) (d : Sketch),
    Clears d ((node location s).run d).2 (∀ n ∈ ((node location s).run d).1.subtree, n.Checked)
  | ⟨id, kind, urn, params, exports, condition, onTrue, onFalse, iterateOn, itemAs, body⟩, d => by
    -- Every kind of node has its id chosen and claimed first.
    have hid := ((chooseId_made id d).trans
      (claimId_made ((chooseId id).run d).1 location ((chooseId id).run d).2)).clears
    rw [node, run_bind, run_bind]
    generalize (chooseId id).run d = chosen at *
    generalize ((claimId chosen.1 location).run chosen.2).2 = d₁ at *
    dsimp only
    by_cases hexec : kind.getD Step.executeKind = Step.executeKind
    · rw [if_pos hexec, run_bind]
      have hcheck := checkAction_clears chosen.1 location (trimmed urn) params d₁
      refine (hid.trans hcheck).imp fun h n hn => ?_
      rw [List.mem_singleton.1 hn]
      exact ⟨h.2, trim_trimmed urn⟩
    rw [if_neg hexec]
    by_cases hif : kind.getD Step.executeKind = Step.ifKind
    · rw [if_pos hif, run_bind, run_bind, run_bind]
      have hcheck := checkCondition_clears chosen.1 location (condition.getD "") d₁
      generalize ((checkCondition chosen.1 location (condition.getD "")).run d₁).2 = d₂ at *
      -- The branches are built one after the other, each from what the one before it left.
      have hyes := chain_clears (location.key "onTrue") 0 onTrue d₂
      generalize (chain (location.key "onTrue") 0 onTrue).run d₂ = yes at *
      have hno := chain_clears (location.key "onFalse") 0 onFalse yes.2
      generalize (chain (location.key "onFalse") 0 onFalse).run yes.2 = no at *
      refine (((hid.trans hcheck).trans hyes).trans hno).imp fun h => ?_
      show ∀ n ∈ _ :: (Node.listing yes.1 ++ Node.listing no.1), n.Checked
      intro n hn
      rcases List.mem_cons.1 hn with rfl | hn
      · exact h.1.1.2
      · exact (List.mem_append.1 hn).elim (h.1.2 n) (h.2 n)
    rw [if_neg hif]
    by_cases hfor : kind.getD Step.executeKind = Step.forKind
    · rw [if_pos hfor, run_bind, run_bind]
      have hcheck := checkElements_clears chosen.1 location (trimmed iterateOn) d₁
      generalize ((checkElements chosen.1 location (trimmed iterateOn)).run d₁).2 = d₂ at *
      have hbody := chain_clears (location.key "body") 0 body d₂
      generalize (chain (location.key "body") 0 body).run d₂ = nodes at *
      refine ((hid.trans hcheck).trans hbody).imp fun h => ?_
      show ∀ n ∈ _ :: Node.listing nodes.1, n.Checked
      intro n hn
      rcases List.mem_cons.1 hn with rfl | hn
      · exact h.1.2
      · exact h.2 n hn
    · -- Nothing is owed for a node of an unknown kind, which is an error.
      rw [if_neg hfor, run_bind]
      exact (hid.trans (.report ..)).imp And.right

/-- **Checks.** Steps that are built without an error give nodes that are checked. -/
theorem chain_clears (location : Location) : ∀ (position : Nat) (steps : List Step) (d : Sketch),
    Clears d ((chain location position steps).run d).2
      (∀ n ∈ Node.listing ((chain location position steps).run d).1, n.Checked)
  | position, [], d => by
    rw [chain]
    exact (Made.refl d).clears.imp fun _ n hn => absurd hn List.not_mem_nil
  | position, s :: rest, d => by
    have hnode := node_clears (location.index position) s d
    have hrest := chain_clears location (position + 1) rest
      ((node (location.index position) s).run d).2
    rw [chain, run_bind, run_bind]
    refine (hnode.trans hrest).imp fun h => ?_
    show ∀ n ∈ Node.listing (_ :: _), n.Checked
    rw [Node.listing]
    exact fun n hn => (List.mem_append.1 hn).elim (h.1 n) (h.2 n)

end

/-- **Checked graphs.** All nodes of a graph that was built are checked. -/
theorem checked_of_build {document : List Step} {ids rest : IdSource} {g : Graph}
    (h : build document ids = (.ok g, rest)) : ∀ n ∈ Node.listing g.nodes, n.Checked := by
  obtain ⟨new, hfound, hchecked⟩ := chain_clears .root 0 document ⟨ids, [], []⟩
  rw [build_eq, draft] at h
  generalize (chain .root 0 document).run ⟨ids, [], []⟩ = made at *
  obtain ⟨nodes, d⟩ := made
  have herrors : Issue.hasErrors d.found.reverse = Issue.hasErrors new := by
    rw [hfound, List.append_nil, Issue.hasErrors, List.any_reverse, Issue.hasErrors]
  dsimp only at h
  rw [herrors] at h
  cases hnew : Issue.hasErrors new with
  | true =>
    rw [hnew, if_pos rfl] at h
    cases h
  | false =>
    rw [hnew, if_neg (by simp)] at h
    cases h
    exact hchecked hnew

end Graph

end Runbook
