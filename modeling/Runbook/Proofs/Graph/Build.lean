import Runbook.Proofs.Graph.Sketch

namespace Runbook

/-!
# Runbook graphs — what building makes of a document

Building visits the steps of a document one by one and makes a node of each.  This file says which
node, once for every kind of step:

* `Built`, `BuiltAll` — a step and the node made of it; steps and the nodes made of them;
* `Made` — what a stretch of building does to the draft: issues are only added, and without errors
  the ids of the new nodes are claimed, each of them once;
* `chain_made` — building some steps makes their nodes;
* `build_ok` — a graph that was built consists of the nodes of its document, and no two of its
  nodes share an id.
-/

namespace Graph

/-! ### Steps and their nodes -/

mutual

/-- A step of a known kind and the node made of it.  An id that was written down is kept, less the
    blanks around it. -/
inductive Built : Step → Node → Prop
  | action {s : Step} {id : String} :
      (∀ a, IdSource.authored? s.id = some a → id = a) → s.effectiveKind = Step.executeKind →
      Built s (.action id (trimmed s.urn) s.params s.exports)
  | choice {s : Step} {id : String} {yes no : List Node} :
      (∀ a, IdSource.authored? s.id = some a → id = a) → s.effectiveKind = Step.ifKind →
      BuiltAll s.onTrue yes → BuiltAll s.onFalse no →
      Built s (.choice id (s.condition.getD "") yes no)
  | loop {s : Step} {id : String} {body : List Node} :
      (∀ a, IdSource.authored? s.id = some a → id = a) → s.effectiveKind = Step.forKind →
      BuiltAll s.body body →
      Built s (.loop id (trimmed s.iterateOn) (itemName? s.itemAs) body)

/-- Steps that are written one after the other and the nodes made of them. -/
inductive BuiltAll : List Step → List Node → Prop
  | nil : BuiltAll [] []
  | cons {s : Step} {n : Node} {steps : List Step} {nodes : List Node} :
      Built s n → BuiltAll steps nodes → BuiltAll (s :: steps) (n :: nodes)

end

/-! ### Stretches of building -/

/-- What a stretch of building does to the draft.  Issues are only added.  If no error is among
    them, then `built` holds and the ids of the new nodes are claimed, none of them twice. -/
def Made (d d' : Sketch) (ids : List String) (built : Prop) : Prop :=
  ∃ new, d'.found = new ++ d.found ∧
    (Issue.hasErrors new = false →
      built ∧ d'.seen = ids.reverse ++ d.seen ∧ (d.seen.Nodup → d'.seen.Nodup))

/-- A stretch that does nothing leaves the draft as it is: no issues, no ids. -/
theorem Made.refl (d : Sketch) : Made d d [] True :=
  ⟨[], rfl, fun _ => ⟨trivial, rfl, id⟩⟩

/-- Two stretches in a row: the ids of the first are claimed before those of the second, and what
    was built is both `p` and `q`. -/
theorem Made.trans {d₁ d₂ d₃ : Sketch} {ids ids' : List String} {p q : Prop}
    (h : Made d₁ d₂ ids p) (h' : Made d₂ d₃ ids' q) : Made d₁ d₃ (ids ++ ids') (p ∧ q) := by
  obtain ⟨new, hfound, hmade⟩ := h
  obtain ⟨new', hfound', hmade'⟩ := h'
  refine ⟨new' ++ new, by rw [hfound', hfound, List.append_assoc], fun herr => ?_⟩
  rw [Issue.hasErrors, List.any_append, Bool.or_eq_false_iff] at herr
  obtain ⟨hp, hseen, hnodup⟩ := hmade herr.2
  obtain ⟨hq, hseen', hnodup'⟩ := hmade' herr.1
  refine ⟨⟨hp, hq⟩, ?_, fun hd => hnodup' (hnodup hd)⟩
  rw [hseen', hseen, List.reverse_append, List.append_assoc]

/-- `Made` is monotone in what is built, so a step may say more or less of its node than its parts
    do. -/
theorem Made.imp {d d' : Sketch} {ids : List String} {p q : Prop} (h : Made d d' ids p)
    (hpq : p → q) : Made d d' ids q := by
  obtain ⟨new, hfound, hmade⟩ := h
  exact ⟨new, hfound, fun herr => ⟨hpq (hmade herr).1, (hmade herr).2⟩⟩

/-! ### Checks only report -/

/-- A stretch of building that claims no id. -/
def Silent (r : Building (List String) Unit) : Prop := ∀ d, Made d (r.run d).2 [] True

/-- Doing nothing claims no id. -/
theorem silent_pure : Silent (pure ()) := fun d => Made.refl d

/-- `report` adds one issue and leaves `seen` alone. -/
theorem silent_report (id : String) (issue : Issue) : Silent (report id issue) := fun _ =>
  ⟨[{ issue with nodeId := some id }], rfl, fun _ => ⟨trivial, rfl, fun h => h⟩⟩

/-- Two `Silent` checks in a row are one. -/
theorem Silent.bind {r r' : Building (List String) Unit} (h : Silent r) (h' : Silent r') :
    Silent (r >>= fun _ => r') := fun d => by
  rw [run_bind]
  exact ((h d).trans (h' _)).imp fun _ => trivial

/-- A `Silent` check of each entry of a list, as `checkAction` and `checkCondition` make them. -/
theorem silent_forM {α : Type} {f : α → Building (List String) Unit} (h : ∀ a, Silent (f a))
    (l : List α) : Silent (l.forM f) := by
  induction l with
  | nil => exact silent_pure
  | cons a l ih => exact (h a).bind ih

/-- `checkReference` at most warns. -/
theorem silent_checkReference (id : String) (location : Location) (token : String) :
    Silent (checkReference id location token) := by
  rw [checkReference]
  split
  · exact silent_report _ _
  · exact silent_pure

/-- What `node` checks of an action: its urn, then each of its parameters by `checkReference`. -/
theorem silent_checkAction (id : String) (location : Location) (urn : String)
    (params : Dict String String) : Silent (checkAction id location urn params) := by
  have hparams : Silent (params.entries.forM fun p =>
      checkReference id ((location.key "params").key p.1) p.2) :=
    silent_forM (fun _ => silent_checkReference _ _ _) _
  rw [checkAction]
  split
  · exact (silent_report _ _).bind hparams
  · exact silent_pure.bind hparams

/-- What `node` checks of a choice, whether or not `Comparison.parse` reads its condition. -/
theorem silent_checkCondition (id : String) (location : Location) (condition : String) :
    Silent (checkCondition id location condition) := by
  unfold checkCondition
  split
  · exact silent_report _ _
  · split
    · exact silent_forM (fun _ => silent_checkReference _ _ _) _
    · exact silent_report _ _

/-- What `node` checks of a loop. -/
theorem silent_checkElements (id : String) (location : Location) (elements : String) :
    Silent (checkElements id location elements) := by
  unfold checkElements
  split
  · exact silent_report _ _
  · split
    · exact silent_checkReference _ _ _
    · exact silent_report _ _

/-! ### Ids -/

/-- `chooseId` answers the id that `IdSource.authored?` finds in a step.  It only draws from the
    source, so nothing is claimed or reported. -/
theorem chooseId_made (written : Option String) (d : Sketch) :
    Made d ((chooseId written).run d).2 []
      (∀ a, IdSource.authored? written = some a → ((chooseId written).run d).1 = a) := by
  unfold chooseId
  split
  · rename_i id hid
    exact (Made.refl d).imp fun _ a ha => Option.some.inj (hid.symm.trans ha)
  · rename_i hnone
    refine ⟨[], rfl, fun _ => ⟨fun a ha => ?_, rfl, id⟩⟩
    rw [hnone] at ha
    exact absurd ha (by simp)

/-- `claimId` claims the id of a step, or reports that it was claimed before, which is an error.
    This is where ids become distinct: without errors `d'.seen` has no repetition if `d.seen` has
    none. -/
theorem claimId_made (id : String) (location : Location) (d : Sketch) :
    Made d ((claimId id location).run d).2 [id] True := by
  rw [claimId, run_bind]
  by_cases hseen : d.seen.contains id = true
  · show Made d (StateT.run (if d.seen.contains id = true then _ else _ :
      Building (List String) Unit) d).2 _ _
    rw [if_pos hseen]
    -- An id that was seen before is an error.
    exact ⟨[_], rfl,
      fun herr => absurd herr (by simp [Issue.hasErrors, Issue.isError, Issue.error])⟩
  · show Made d (StateT.run (if d.seen.contains id = true then _ else _ :
      Building (List String) Unit) d).2 _ _
    rw [if_neg hseen]
    refine ⟨[], rfl, fun _ => ⟨trivial, rfl, fun hd => ?_⟩⟩
    exact List.nodup_cons.2 ⟨fun hmem => hseen (List.contains_iff_mem.2 hmem), hd⟩

/-! ### Steps -/

/-- After `reportKind` there is an error, so `Made` owes nothing for the step, whatever `built`
    says. -/
theorem reportKind_made (id : String) (location : Location) (kind : String) (d : Sketch)
    (built : Prop) : Made d ((reportKind id location kind).run d).2 [] built :=
  ⟨[_], rfl, fun herr => absurd herr (by simp [Issue.hasErrors, Issue.isError, Issue.error])⟩

mutual

/-- Building a step makes its node. -/
theorem node_made (location : Location) : ∀ (s : Step) (d : Sketch),
    Made d ((node location s).run d).2 (((node location s).run d).1.subtree.map Node.id)
      (Built s ((node location s).run d).1)
  | ⟨id, kind, urn, params, exports, condition, onTrue, onFalse, iterateOn, itemAs, body⟩, d => by
    -- Whatever the kind of the step, an id is chosen and claimed first.
    have hid := chooseId_made id d
    have hclaim := claimId_made ((chooseId id).run d).1 location ((chooseId id).run d).2
    have hstart := hid.trans hclaim
    rw [node, run_bind, run_bind]
    generalize (chooseId id).run d = chosen at *
    generalize ((claimId chosen.1 location).run chosen.2).2 = d₁ at *
    dsimp only
    by_cases hexec : kind.getD Step.executeKind = Step.executeKind
    · rw [if_pos hexec, run_bind]
      have hcheck := silent_checkAction chosen.1 location (trimmed urn) params d₁
      show Made d _ [chosen.1] (Built _ (.action _ _ _ _))
      exact (hstart.trans hcheck).imp fun h => .action h.1.1 hexec
    rw [if_neg hexec]
    by_cases hif : kind.getD Step.executeKind = Step.ifKind
    · rw [if_pos hif, run_bind, run_bind, run_bind]
      have hcheck := silent_checkCondition chosen.1 location (condition.getD "") d₁
      generalize ((checkCondition chosen.1 location (condition.getD "")).run d₁).2 = d₂ at *
      have hyes := chain_made (location.key "onTrue") 0 onTrue d₂
      generalize (chain (location.key "onTrue") 0 onTrue).run d₂ = yes at *
      have hno := chain_made (location.key "onFalse") 0 onFalse yes.2
      generalize (chain (location.key "onFalse") 0 onFalse).run yes.2 = no at *
      show Made d no.2 (List.map Node.id (_ :: (Node.listing yes.1 ++ Node.listing no.1)))
        (Built _ (.choice _ _ _ _))
      rw [List.map_cons, List.map_append]
      exact (((hstart.trans hcheck).trans hyes).trans hno).imp fun h =>
        .choice h.1.1.1.1 hif h.1.2 h.2
    rw [if_neg hif]
    by_cases hfor : kind.getD Step.executeKind = Step.forKind
    · rw [if_pos hfor, run_bind, run_bind]
      have hcheck := silent_checkElements chosen.1 location (trimmed iterateOn) d₁
      generalize ((checkElements chosen.1 location (trimmed iterateOn)).run d₁).2 = d₂ at *
      have hbody := chain_made (location.key "body") 0 body d₂
      generalize (chain (location.key "body") 0 body).run d₂ = nodes at *
      show Made d nodes.2 (List.map Node.id (_ :: Node.listing nodes.1)) (Built _ (.loop _ _ _ _))
      exact ((hstart.trans hcheck).trans hbody).imp fun h => .loop h.1.1.1 hfor h.2
    · -- A kind that is not known is an error, so nothing is owed for the node.
      rw [if_neg hfor, run_bind]
      have herr := reportKind_made chosen.1 location (kind.getD Step.executeKind) d₁
      exact (hstart.trans (herr _)).imp fun h => h.2

/-- **Building.** Building steps that are written one after the other makes their nodes. -/
theorem chain_made (location : Location) : ∀ (position : Nat) (steps : List Step) (d : Sketch),
    Made d ((chain location position steps).run d).2
      ((Node.listing ((chain location position steps).run d).1).map Node.id)
      (BuiltAll steps ((chain location position steps).run d).1)
  | position, [], d => by
    rw [chain]
    exact (Made.refl d).imp fun _ => .nil
  | position, s :: rest, d => by
    have hnode := node_made (location.index position) s d
    have hrest := chain_made location (position + 1) rest
      ((node (location.index position) s).run d).2
    rw [chain, run_bind, run_bind]
    show Made d _ (List.map Node.id (Node.listing (_ :: _))) (BuiltAll _ (_ :: _))
    rw [Node.listing, List.map_append]
    exact (hnode.trans hrest).imp fun h => .cons h.1 h.2

end

/-- **A graph that was built.** It consists of the nodes of the document's steps, and no two of its
    nodes, at whatever depth, share an id. -/
theorem build_ok {document : List Step} {ids rest : IdSource} {g : Graph}
    (h : build document ids = (.ok g, rest)) :
    BuiltAll document g.nodes ∧ ((Node.listing g.nodes).map Node.id).Nodup := by
  have hmade := chain_made .root 0 document ⟨ids, [], []⟩
  rw [build_eq, draft] at h
  generalize (chain .root 0 document).run ⟨ids, [], []⟩ = made at *
  obtain ⟨nodes, d⟩ := made
  obtain ⟨new, hfound, hbuilt⟩ := hmade
  -- Issues are found latest first, which does not change whether one is an error.
  have herrors : Issue.hasErrors d.found.reverse = Issue.hasErrors new := by
    rw [show d.found = new by simpa using hfound, Issue.hasErrors, List.any_reverse,
      Issue.hasErrors]
  dsimp only at h
  rw [herrors] at h
  cases hnew : Issue.hasErrors new with
  | true =>
    rw [hnew, if_pos rfl] at h
    exact absurd (congrArg Prod.fst h) (by simp)
  | false =>
    rw [hnew, if_neg (by simp)] at h
    -- Without errors the claimed ids are those of all nodes, none of them twice.
    obtain ⟨hall, hseen, hnodup⟩ := hbuilt hnew
    obtain rfl : (⟨nodes⟩ : Graph) = g := by simpa using congrArg Prod.fst h
    refine ⟨hall, ?_⟩
    rw [List.append_nil] at hseen
    exact (List.reverse_perm _).nodup_iff.1 (hseen ▸ hnodup List.nodup_nil)

/-! ### A document with steps inside steps -/

/-- A choice between a loop and an action, and an action after it. -/
def nestedSteps : List Step :=
  [{ Step.choose "$a==1" with
      id := some " c "
      onTrue := [{ Step.forEach " $h" with
        itemAs := some "$x", body := [{ Step.execute " u" with params := .singleton "p" "$x" }] }]
      onFalse := [.execute "v"] },
    .execute "w"]

/-- What is made of `nestedSteps`. -/
def nestedGraph : Graph :=
  ⟨[.choice "c" "$a==1" [.loop "1" "$h" (some "x") [.action "2" "u" (.singleton "p" "$x") ∅]]
      [.action "3" "v" ∅ ∅],
    .action "4" "w" ∅ ∅]⟩

/-- `nestedSteps` has ids written in two places and is supplied with the others. -/
theorem build_nestedSteps : build nestedSteps .fresh = (.ok nestedGraph, ⟨5⟩) := by
  rw [build_eq]
  rfl

/-- Where the nodes of `nestedGraph` are laid out. -/
def nestedLayout : Layout where
  nodes := [
    ⟨"c", .choice "$a==1" (some 1) (some 3), some 4⟩,
    ⟨"1", .loop "$h" (some "x") (some 2), none⟩,
    ⟨"2", .action "u" (.singleton "p" "$x") ∅, none⟩,
    ⟨"3", .action "v" ∅ ∅, none⟩,
    ⟨"4", .action "w" ∅ ∅, none⟩]
  root := some 0
  byId := .ofList [("c", 0), ("1", 1), ("2", 2), ("3", 3), ("4", 4)]

/-- The arena of `nestedSteps`, with every `next` and every branch patched. -/
theorem layout_nestedSteps : layout nestedSteps .fresh = (.ok nestedLayout, ⟨5⟩) := by
  have hlayout : (layout nestedSteps .fresh).1.toOption = some nestedLayout := by decide +kernel
  have hids : (layout nestedSteps .fresh).2 = ⟨5⟩ := by decide +kernel
  generalize layout nestedSteps .fresh = laid at *
  obtain ⟨_ | l, ids⟩ := laid
  · cases hlayout
  · cases hlayout
    cases hids
    rfl

end Graph

end Runbook
