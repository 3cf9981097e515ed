import Runbook.Command.Run
import Runbook.Proofs.Graph.Numbering
import Runbook.Proofs.Issue

namespace Runbook

/-!
# Runbook graphs — checks foretell preparations

A check visits the steps of a document as they are written; a run is prepared from the document that
was filled first.  The ids of the steps are all that the two could see differently.

* `Graph.Same` — two parts of building that do the same from drafts that differ in the source of
  ids;
* `Graph.same_chain` — so do the steps of a document and those of the filled document, if the ids
  that are supplied on the way are the ids that are written there;
* `IdSource.fill_fill` — a filled document stays as it is;
* `Graph.listed_validate` — building fails with the errors on the list that a check answers;
* `Verdict.Foretells` — a verdict says whether a run can be prepared and what keeps it from being;
* `foretells_prepare` — the verdict on the filled document does, and the verdict on a document that
  is in step does as well.
-/

open Step (visit visitAll visit_eq executeKind ifKind forKind)

/-! ### Filled documents -/

namespace IdSource

/-- What is written as an id when a document is filled is one. -/
theorem authored?_write_isSome (ids : IdSource) (written : Option String) :
    (authored? (ids.write written)).isSome = true := by
  rw [authored?_write]
  rfl

mutual

/-- A filled step is filled already, so `ids` is not drawn on. -/
theorem fillStep_fillStep (ids : IdSource) : ∀ (s : Step) (ids₀ : IdSource),
    ids.fillStep (ids₀.fillStep s).1 = ((ids₀.fillStep s).1, ids)
  | ⟨id, kind, urn, params, exports, condition, onTrue, onFalse, iterateOn, itemAs, body⟩,
    ids₀ => by
    rw [fillStep_eq ids₀, fillStep_eq]
    dsimp only
    have hname := name_of_authored (authored?_write ids₀ id) ids
    have hwrite : ids.write (ids₀.write id) = ids₀.write id := by
      rw [write, authored?_write_isSome, if_pos rfl]
    rw [hname, hwrite, fill_fill ids onTrue]
    dsimp only
    rw [fill_fill ids onFalse]
    dsimp only
    rw [fill_fill ids body]

/-- A filled document stays as it is. -/
theorem fill_fill (ids : IdSource) : ∀ (steps : List Step) (ids₀ : IdSource),
    ids.fill (ids₀.fill steps).1 = ((ids₀.fill steps).1, ids)
  | [], ids₀ => by
    rw [fill, fill]
  | s :: rest, ids₀ => by
    rw [fill]
    dsimp only
    rw [fill, fillStep_fillStep ids s]
    dsimp only
    rw [fill_fill ids rest]

end

/-- The mentions of a filled document are level, since all of them have ids. -/
theorem inStep_fill (ids : IdSource) (document : List Step) :
    Step.InStep (ids.fill document).1 := by
  have hwritten : ∀ (l : List Step.Mention) (ids : IdSource), ∀ m ∈ ids.writeAll l,
      (authored? m.written).isSome = true := by
    intro l
    induction l with
    | nil => exact fun ids m hm => absurd hm List.not_mem_nil
    | cons n rest ih =>
      intro ids m hm
      rcases List.mem_cons.1 hm with rfl | hm
      · exact authored?_write_isSome ids n.written
      · exact ih _ m hm
  intro before after m hm _ hunnamed
  rw [(mentions_fill true document ids).1] at hm
  have hsome := hwritten _ ids m (hm ▸ List.mem_append_right _ List.mem_cons_self)
  rw [hunnamed] at hsome
  cases hsome

end IdSource

namespace Graph

open IdSource (authored? name_of_authored)
open Step (mentions mentionsOf visitedIds visitedIds_mentions visitedIds_mentionsOf)

/-! ### Building from different sources -/

variable {α β : Type} {ids : IdSource} {d : Sketch}

/-- From a draft with another source of ids, a part of building does the same as one does from the
    given draft, but for the source. -/
def Same (ids : IdSource) (d : Sketch) (r r' : Building (List String) α) : Prop :=
  r'.run { d with ids := ids } = ((r.run d).1, { (r.run d).2 with ids := ids })

/-- A part that is `Blind` does the same from every source. -/
theorem Blind.same {r : Building (List String) α} (h : Blind r) (ids : IdSource) (d : Sketch) :
    Same ids d r r :=
  h d ids

/-- Parts in a row that do the same, each from the draft the one before has left. -/
theorem Same.bind {r r' : Building (List String) α} {f f' : α → Building (List String) β}
    (h : Same ids d r r') (hf : Same ids (r.run d).2 (f (r.run d).1) (f' (r.run d).1)) :
    Same ids d (r >>= f) (r' >>= f') := by
  rw [Same, run_bind, run_bind, h]
  exact hf

/-- An id that is supplied on one side is written on the other. -/
theorem same_chooseId {written written' : Option String}
    (h : authored? written' = some (d.ids.name written).1) :
    Same ids d (chooseId written) (chooseId written') := by
  rw [Same, run_chooseId, run_chooseId, name_of_authored h]

/-- Filling visits no other steps. -/
theorem length_visitedIds_writeAll (l : List Step.Mention) (ids : IdSource) :
    (visitedIds (ids.writeAll l)).length = (visitedIds l).length := by
  induction l generalizing ids with
  | nil => rfl
  | cons m rest ih =>
    obtain ⟨written, visited⟩ := m
    cases visited with
    | true => exact congrArg Nat.succ (ih _)
    | false => exact ih _

/-- Steps are filled, not added. -/
theorem length_visit_fillStep (place : Location) (s : Step) (ids : IdSource) :
    (visit place (ids.fillStep s).1).length = (visit place s).length := by
  have hids : ∀ s : Step, (visit place s).length = (visitedIds (mentionsOf true s)).length :=
    fun s => by rw [visitedIds_mentionsOf place, List.length_map]
  rw [hids, hids, (IdSource.mentions_fillStep true s ids).1, length_visitedIds_writeAll]

/-- A document and its filled form have equally many visited steps. -/
theorem length_visitAll_fill (place : Location) (position : Nat) (steps : List Step)
    (ids : IdSource) :
    (visitAll place position (ids.fill steps).1).length =
      (visitAll place position steps).length := by
  have hids : ∀ steps : List Step, (visitAll place position steps).length =
      (visitedIds (mentions true steps)).length :=
    fun steps => by rw [visitedIds_mentions place position, List.length_map]
  rw [hids, hids, (IdSource.mentions_fill true steps ids).1, length_visitedIds_writeAll]

/-- The ids that the steps `visited` are supplied with are the ones that `filled` have written. -/
def Supplies (ids : IdSource) (visited filled : List (Location × Step)) : Prop :=
  (filled.map fun p => authored? p.2.id) = (ids.names (visited.map fun p => p.2.id)).map some

/-- `Supplies` for both halves of a listing. -/
theorem supplies_append {v₁ v₂ f₁ f₂ : List (Location × Step)} (hlength : f₁.length = v₁.length)
    (h : Supplies ids (v₁ ++ v₂) (f₁ ++ f₂)) :
    Supplies ids v₁ f₁ ∧ Supplies (ids.after (v₁.map fun p => p.2.id)) v₂ f₂ := by
  rw [Supplies, List.map_append, List.map_append, IdSource.names_append, List.map_append] at h
  exact List.append_inj h (by simp [IdSource.length_names, hlength])

mutual

/-- `same_chain` for a single step. -/
theorem same_node (location : Location) : ∀ (s : Step) (ids₀ ids : IdSource) (d : Sketch),
    Supplies d.ids (visit location s) (visit location (ids₀.fillStep s).1) →
    Same ids d (node location s) (node location (ids₀.fillStep s).1)
  | ⟨id, kind, urn, params, exports, condition, onTrue, onFalse, iterateOn, itemAs, body⟩, ids₀,
    ids, d, h => by
    rw [IdSource.fillStep_eq] at h ⊢
    dsimp only at h ⊢
    rw [Supplies, visit, visit] at h
    obtain ⟨hid, hinner⟩ := List.cons.inj h
    have hinner : Supplies (d.ids.name id).2 _ _ := hinner
    rw [node, node]
    -- Both sides choose and claim the same id.
    refine .bind (same_chooseId hid) (.bind ((Blind.claimId _ _).same _ _) ?_)
    rw [run_chooseId]
    dsimp only
    have hclaim := (Blind.claimId (d.ids.name id).1 location).ids_eq
      { d with ids := (d.ids.name id).2 }
    generalize ((claimId (d.ids.name id).1 location).run { d with ids := (d.ids.name id).2 }).2 = d₁
      at *
    dsimp only at hclaim
    rw [← hclaim] at hinner
    by_cases hexec : kind.getD executeKind = executeKind
    · rw [if_pos hexec, if_pos hexec]
      exact .bind ((Blind.checkAction _ _ _ _).same _ _) ((Blind.pure _).same _ _)
    rw [if_neg hexec, if_neg hexec]
    by_cases hif : kind.getD executeKind = ifKind
    · rw [if_pos hif, if_pos hif] at hinner ⊢
      have hcheck := (Blind.checkCondition (d.ids.name id).1 location (condition.getD "")).ids_eq d₁
      refine .bind ((Blind.checkCondition _ _ _).same _ _) ?_
      generalize
        ((checkCondition (d.ids.name id).1 location (condition.getD "")).run d₁).2 = d₂ at *
      rw [← hcheck] at hinner
      obtain ⟨hyes, hno⟩ := supplies_append (length_visitAll_fill _ _ _ _) hinner
      refine .bind (same_chain (location.key "onTrue") 0 onTrue _ ids d₂ hyes) ?_
      rw [← (names_chain (location.key "onTrue") 0 onTrue d₂).2] at hno
      exact .bind (same_chain (location.key "onFalse") 0 onFalse _ ids _ hno)
        ((Blind.pure _).same _ _)
    rw [if_neg hif, if_neg hif] at hinner ⊢
    by_cases hfor : kind.getD executeKind = forKind
    · rw [if_pos hfor, if_pos hfor] at hinner ⊢
      have hcheck := (Blind.checkElements (d.ids.name id).1 location (trimmed iterateOn)).ids_eq d₁
      refine .bind ((Blind.checkElements _ _ _).same _ _) ?_
      rw [← hcheck] at hinner
      exact .bind (same_chain (location.key "body") 0 body _ ids _ hinner) ((Blind.pure _).same _ _)
    · rw [if_neg hfor, if_neg hfor]
      exact .bind ((Blind.reportKind _ _ _).same _ _) ((Blind.pure _).same _ _)

/-- **Filling and building.** The steps of a filled document are built like those of the document,
    whatever ids the source would supply, if they were given the ids that the document's are
    supplied with. -/
theorem same_chain (location : Location) : ∀ (position : Nat) (steps : List Step)
    (ids₀ ids : IdSource) (d : Sketch),
    Supplies d.ids (visitAll location position steps)
      (visitAll location position (ids₀.fill steps).1) →
    Same ids d (chain location position steps) (chain location position (ids₀.fill steps).1)
  | position, [], ids₀, ids, d, _ => by
    rw [IdSource.fill, chain]
    exact (Blind.pure _).same _ _
  | position, s :: rest, ids₀, ids, d, h => by
    rw [IdSource.fill] at h ⊢
    dsimp only at h ⊢
    rw [visitAll, visitAll] at h
    obtain ⟨hstep, hrest⟩ := supplies_append (length_visit_fillStep _ _ _) h
    rw [← (names_node (location.index position) s d).2] at hrest
    rw [chain, chain]
    exact .bind (same_node (location.index position) s ids₀ ids d hstep)
      (.bind (same_chain location (position + 1) rest _ ids _ hrest) ((Blind.pure _).same _ _))

end

/-- What is found in a filled document that was in step, and what is made of it. -/
theorem draft_fill {document : List Step} (h : Step.InStep document) (ids ids' : IdSource) :
    draft (ids.fill document).1 ids' =
      ((draft document ids).1, { (draft document ids).2 with ids := ids' }) :=
  same_chain .root 0 document ids ids' ⟨ids, [], []⟩ ((authored_fill_iff document ids).2 h)

/-- What `build` answers, by the issues that are found. -/
theorem build_fst (document : List Step) (ids : IdSource) :
    (build document ids).1 =
      if Issue.hasErrors (draft document ids).2.found.reverse then
        .error (Issue.sort ((draft document ids).2.found.reverse.filter Issue.isError))
      else .ok ⟨(draft document ids).1⟩ := by
  rw [build_eq]

/-! ### What is found and what is listed -/

/-- How the list that a check answers stands to the issues in the order in which they were found,
    and how building stands to that list. -/
structure Listed (found listed : List Issue) (built : Except (List Issue) Graph) : Prop where
  /-- Errors make a build fail, and nothing else does. -/
  fails : (∃ issues, built = .error issues) ↔ ∃ i ∈ listed, i.severity = .error
  /-- A build that fails answers the errors on the list, in the order of the list. -/
  errors : ∀ issues, built = .error issues → issues = listed.filter fun i => i.severity = .error
  /-- What was found is listed as often as it was found, and nothing else is. -/
  perm : listed.Perm found
  /-- Issues are listed by severity, then by kind, location, message and node. -/
  sorted : listed.Pairwise fun a b => ¬ a.Exceeds b
  /-- Issues that agree in all of these are listed in the order in which they were found. -/
  ties : ∀ a : Issue, (listed.filter fun b => a.Ties b) = found.filter fun b => a.Ties b

/-- **Building and checking.** Both go by the same issues: a check lists all of them, and building
    fails with the errors among them, in the order of the list. -/
theorem listed_validate (document : List Step) :
    Listed (lay document .fresh).2.found.reverse (validate document)
      (build document .fresh).1 := by
  have hbuild := build_fst document .fresh
  have hvalidate := validate_eq document
  rw [(tracks_lay document .fresh).found]
  generalize (draft document .fresh).2.found.reverse = found at hbuild hvalidate
  have hisError : Issue.isError = fun i => decide (i.severity = .error) :=
    funext fun i => beq_eq_decide i.severity .error
  have herrors : Issue.hasErrors found = true ↔ ∃ i ∈ Issue.sort found, i.severity = .error := by
    rw [← Issue.hasErrors_sort, Issue.hasErrors, hisError, List.any_eq_true]
    simp only [decide_eq_true_eq]
  rw [hbuild, hvalidate, ← Issue.filter_sort, hisError]
  constructor
  case fails =>
    rw [← herrors]
    split <;> simp_all
  case errors =>
    intro issues hissues
    split at hissues
    · exact (Except.error.inj hissues).symm
    · cases hissues
  case perm => exact List.mergeSort_perm found Issue.precedes
  case sorted => exact Issue.pairwise_sort found
  case ties => exact fun a => Issue.filter_ties_sort a found

end Graph

/-! ### Verdicts -/

/-- A verdict says whether a run can be prepared, and lists the errors that keep it from being. -/
structure Verdict.Foretells (v : Verdict) (prepared : Except (List Issue) Prepared) : Prop where
  ready : (∃ p, prepared = .ok p) ↔ v.isValid = true
  errors : ∀ issues, prepared = .error issues → issues = v.issues.filter Issue.isError

/-- `prepare` fills a document and builds what comes of it, with the source that is left. -/
theorem prepare_eq (document : List Step) :
    prepare document =
      (Graph.build (IdSource.fresh.fill document).1 (IdSource.fresh.fill document).2).1.map
        fun graph => ⟨(IdSource.fresh.fill document).1, graph⟩ := by
  unfold prepare
  generalize IdSource.fresh.fill document = filled
  obtain ⟨filled, ids⟩ := filled
  dsimp only
  cases (Graph.build filled ids).1 <;> rfl

/-- A check that finds what is found when a run is prepared foretells it. -/
theorem foretells_of_found {document checked : List Step}
    (h : (Graph.draft (IdSource.fresh.fill document).1 (IdSource.fresh.fill document).2).2.found =
      (Graph.draft checked .fresh).2.found) :
    (Verdict.ofDocument checked).Foretells (prepare document) := by
  have hbuild := Graph.build_fst (IdSource.fresh.fill document).1 (IdSource.fresh.fill document).2
  have hvalid : (Verdict.ofDocument checked).isValid =
      !Issue.hasErrors (Graph.draft checked .fresh).2.found.reverse := by
    rw [Verdict.isValid, Verdict.ofDocument, Graph.validate_eq, Issue.hasErrors_sort]
  have herrors : (Verdict.ofDocument checked).issues.filter Issue.isError =
      Issue.sort ((Graph.draft checked .fresh).2.found.reverse.filter Issue.isError) := by
    rw [Verdict.ofDocument, Graph.validate_eq, Issue.filter_sort]
  have hprepare := prepare_eq document
  rw [hbuild, h] at hprepare
  cases hfound : Issue.hasErrors (Graph.draft checked .fresh).2.found.reverse with
  | true =>
    rw [hfound, if_pos rfl, Except.map] at hprepare
    rw [hfound] at hvalid
    refine ⟨⟨fun hok => ?_, fun hv => ?_⟩, fun issues hissues => ?_⟩
    · obtain ⟨p, hp⟩ := hok
      rw [hprepare] at hp
      cases hp
    · rw [hvalid] at hv
      cases hv
    · rw [hprepare] at hissues
      rw [herrors]
      exact (Except.error.inj hissues).symm
  | false =>
    rw [hfound, if_neg (by simp), Except.map] at hprepare
    rw [hfound] at hvalid
    refine ⟨⟨fun _ => hvalid, fun _ => ⟨_, hprepare⟩⟩, fun issues hissues => ?_⟩
    rw [hprepare] at hissues
    cases hissues

/-- **Checks foretell preparations.** A run of a document can be prepared if the filled document has
    no errors; if it has any, these are what keeps the run from being prepared, in the same order.
    The same can be said of the document as it is written, if it is in step. -/
theorem foretells_prepare (document : List Step) :
    (Verdict.ofDocument (IdSource.fresh.fill document).1).Foretells (prepare document) ∧
      (Step.InStep document → (Verdict.ofDocument document).Foretells (prepare document)) := by
  constructor
  · have hdraft := Graph.draft_fill (IdSource.inStep_fill .fresh document) .fresh
      (IdSource.fresh.fill document).2
    rw [IdSource.fill_fill] at hdraft
    exact foretells_of_found (by rw [hdraft])
  · intro h
    exact foretells_of_found (by rw [Graph.draft_fill h])

/-- An action without a urn that is supplied with an id, which the action after it has as well. -/
def faultySteps : List Step := [.execute " ", { Step.execute "u" with id := some " 1 " }]

/-- The check finds errors in this document, and they are what keeps its run from being prepared. -/
theorem foretells_faultySteps :
    Step.InStep faultySteps ∧ (Verdict.ofDocument faultySteps).isValid = false ∧
      (Verdict.ofDocument faultySteps).Foretells (prepare faultySteps) := by
  have hstep : Step.InStep faultySteps := by decide +kernel
  have hvalid : (Verdict.ofDocument faultySteps).isValid = false := by
    rw [Verdict.isValid, Verdict.ofDocument, Graph.validate_eq, Issue.hasErrors_sort]
    decide +kernel
  exact ⟨hstep, hvalid, (foretells_prepare faultySteps).2 hstep⟩

/-- The step in the branch of the first action takes the id "2" when the document is filled, so that
    the second action gets the id of the third. -/
def clashingSteps : List Step :=
  [{ Step.execute "u" with onTrue := [.execute "v"] }, .execute "w",
    { Step.execute "x" with id := some "3" }]

/-- The error that keeps a run of `clashingSteps` from being prepared. -/
def clash : Issue :=
  { Issue.error "duplicate_id" ((Location.root.index 2).key "id")
      "node id `3` is used more than once" "node.id.unique" with
    nodeId := some "3" }

/-- A check finds nothing in this document, and yet no run of it can be prepared. -/
theorem not_foretells_clashingSteps :
    (Verdict.ofDocument clashingSteps).issues = [] ∧ prepare clashingSteps = .error [clash] ∧
      ¬ (Verdict.ofDocument clashingSteps).Foretells (prepare clashingSteps) := by
  have hissues : (Verdict.ofDocument clashingSteps).issues = [] := by decide +kernel
  have hprepare : prepare clashingSteps = .error [clash] := by
    have hsorted : Issue.sort [clash] = [clash] := List.mergeSort_singleton clash
    rw [← hsorted]
    rfl
  refine ⟨hissues, hprepare, fun h => ?_⟩
  obtain ⟨p, hp⟩ := h.ready.2 (by rw [Verdict.isValid, hissues]; rfl)
  rw [hprepare] at hp
  cases hp

end Runbook
