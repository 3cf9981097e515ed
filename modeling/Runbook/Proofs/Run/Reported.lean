import Runbook.Proofs.Graph.Mirror
import Runbook.Proofs.Run.Places
import Runbook.Report

namespace Runbook

/-!
# Running a graph — reports and records

A run recurses over the nodes of a graph and writes records into scopes; a report recurses over the
steps of a document and reads them back.  This file shows that the two recursions go the same ways,
so that a report loses no record and invents none.

* `Graph.Titled`, `Graph.Names` — a document whose steps have the ids of the nodes made of them;
* `Report.started` — the steps that a report shows as started, each with its place;
* `Report.Says` — what a report says of a record;
* `Report.shown_steps`, `Report.nodup_steps` — each step that is shown as started has a record, and
  none is shown twice at a place, by recursion over the nodes;
* `Report.mem_started` — a node that a run comes to is shown as started, by induction on the way;
* `reported_start` — after a first run, the report and the records correspond one to one.
-/

/-! ### Documents with the ids of their graph -/

namespace Graph

open Step (visit visitAll visit_execute visit_if visit_for)
open Node (length_listing)

mutual

/-- A step of a known kind that has the id of a node of that kind, as have the steps inside it. -/
inductive Titled : Step → Node → Prop
  | action {s : Step} {id urn : String} {params exports : Dict String String} :
      s.id = some id → s.effectiveKind = Step.executeKind →
      Titled s (.action id urn params exports)
  | choice {s : Step} {id condition : String} {yes no : List Node} :
      s.id = some id → s.effectiveKind = Step.ifKind →
      TitledAll s.onTrue yes → TitledAll s.onFalse no → Titled s (.choice id condition yes no)
  | loop {s : Step} {id elements : String} {itemAs : Option String} {body : List Node} :
      s.id = some id → s.effectiveKind = Step.forKind →
      TitledAll s.body body → Titled s (.loop id elements itemAs body)

inductive TitledAll : List Step → List Node → Prop
  | nil : TitledAll [] []
  | cons {s : Step} {n : Node} {steps : List Step} {nodes : List Node} :
      Titled s n → TitledAll steps nodes → TitledAll (s :: steps) (n :: nodes)

end

/-- The steps of a document are written with the ids that their nodes have. -/
def Names (document : List Step) (g : Graph) : Prop :=
  (visitAll .root 0 document).map (fun p => p.2.id) =
    (Node.listing g.nodes).map fun n => some n.id

mutual

/-- `titled_of_builtAll` for a single step. -/
theorem titled_of_built {place : Location} : ∀ {n : Node} {s : Step}, Built s n →
    (visit place s).map (fun p => p.2.id) = n.subtree.map (fun n => some n.id) → Titled s n
  | .action .., s, .action _ hkind, h => by
    rw [visit_execute hkind, Node.subtree] at h
    exact .action (List.cons.inj h).1 hkind
  | .choice _ _ yes no, s, .choice _ hkind hyes hno, h => by
    rw [visit_if hkind, Node.subtree, List.map_cons, List.map_cons, List.map_append,
      List.map_append] at h
    obtain ⟨hid, hinner⟩ := List.cons.inj h
    obtain ⟨htrue, hfalse⟩ := List.append_inj hinner (by
      rw [List.length_map, List.length_map, length_visitAll hyes, length_listing])
    exact .choice hid hkind (titled_of_builtAll hyes htrue) (titled_of_builtAll hno hfalse)
  | .loop _ _ _ body, s, .loop _ hkind hbody, h => by
    rw [visit_for hkind, Node.subtree] at h
    obtain ⟨hid, hinner⟩ := List.cons.inj h
    exact .loop hid hkind (titled_of_builtAll hbody hinner)

/-- Steps that carry the ids of their nodes are `Titled`: listings of visited steps and of nodes run
    side by side. -/
theorem titled_of_builtAll {place : Location} {position : Nat} : ∀ {nodes : List Node}
    {steps : List Step}, BuiltAll steps nodes →
    (visitAll place position steps).map (fun p => p.2.id) =
      (Node.listing nodes).map (fun n => some n.id) → TitledAll steps nodes
  | [], _, .nil, _ => .nil
  | n :: rest, _, .cons hn hrest, h => by
    rw [visitAll, Node.listing, List.map_append, List.map_append] at h
    obtain ⟨hfirst, hlater⟩ := List.append_inj h (by
      rw [List.length_map, List.length_map, length_visit hn, Node.length_subtree])
    exact .cons (titled_of_built hn hfirst) (titled_of_builtAll hrest hlater)

end

end Graph

/-! ### What a report shows -/

namespace Report

mutual

/-- A report and all reports inside it, each with the iterations that lead to it. -/
def listing : Report → List (Place × Report)
  | ⟨id, kind, urn, params, exports, condition, iterateOn, progress, error, given, raw, fields,
      outcome, used, onTrue, onFalse, iterations⟩ =>
    ([], ⟨id, kind, urn, params, exports, condition, iterateOn, progress, error, given, raw, fields,
      outcome, used, onTrue, onFalse, iterations⟩) ::
        (listingAll onTrue ++ listingAll onFalse ++ listingPasses (id.getD "") iterations)

def listingAll : List Report → List (Place × Report)
  | [] => []
  | q :: rest => q.listing ++ listingAll rest

/-- The reports in the iterations of the loop `id`. -/
def listingPasses (id : String) : List (Pass Report) → List (Place × Report)
  | [] => []
  | ⟨index, _, _, body⟩ :: rest =>
    (listingAll body).map (fun e => ((id, index) :: e.1, e.2)) ++ listingPasses id rest

end

/-- The reports that show their step as started, at whatever depth. -/
def started (reports : List Report) : List (Place × Report) :=
  (listingAll reports).filter fun e => e.2.progress ≠ .notStarted

/-- A report repeats what is written in its step. -/
structure Repeats (q : Report) (s : Step) : Prop where
  id : q.id = s.id
  kind : q.kind = s.effectiveKind
  urn : q.urn = s.urn
  params : q.params = s.params
  exports : q.exports = s.exports
  condition : q.condition = s.condition
  iterateOn : q.iterateOn = s.iterateOn

/-- What a report says of a record.  Of the result of an action it shows the payload, or the output
    fields if the payload is empty. -/
def Says (store : Store) (q : Report) : Record → Prop
  | .action r =>
    q.kind = Step.executeKind ∧ q.progress = .of r.done r.waiting ∧ q.error = r.error ∧
      q.given = r.params ∧ (q.raw, q.fields) = match r.result with
        | none => (none, ∅)
        | some result => if result.raw = "" then (none, result.fields) else (some result.raw, ∅)
  | .choice r =>
    q.kind = Step.ifKind ∧ q.progress = .of r.done true ∧ q.error = r.error ∧
      q.outcome = r.outcome ∧ q.used = r.used
  | .loop r =>
    q.kind = Step.forKind ∧ q.progress = .of r.done r.waiting ∧ q.error = r.error ∧
      q.iterations.map (fun p => (p.index, p.value, p.error)) =
        r.history.entries.map fun e => (e.1, e.2.value, (store.scope e.2.scope).error)

/-! ### The listing of a report -/

/-- What is started in the reports of two blocks. -/
theorem started_append (reports reports' : List Report) :
    started (reports ++ reports') = started reports ++ started reports' := by
  have hlisting : listingAll (reports ++ reports') = listingAll reports ++ listingAll reports' := by
    induction reports with
    | nil => rfl
    | cons q rest ih => rw [List.cons_append, listingAll, listingAll, ih, List.append_assoc]
  rw [started, hlisting, List.filter_append, started, started]

/-- What is started in the first report and in the rest. -/
theorem started_cons (q : Report) (rest : List Report) :
    started (q :: rest) = started [q] ++ started rest :=
  started_append [q] rest

/-- The passes of a loop put its id and their numbers before the places inside them. -/
theorem listingPasses_eq (id : String) (passes : List (Pass Report)) :
    listingPasses id passes =
      passes.flatMap fun p => (listingAll p.body).map fun e => ((id, p.index) :: e.1, e.2) := by
  induction passes with
  | nil => rfl
  | cons p rest ih => rw [listingPasses, ih, List.flatMap_cons]

/-- What a report shows as started: its own step, and what is inside. -/
theorem started_singleton (q : Report) :
    started [q] = (if q.progress = .notStarted then [] else [([], q)]) ++
      (started q.onTrue ++ started q.onFalse ++ q.iterations.flatMap fun p =>
        (started p.body).map fun e => ((q.id.getD "", p.index) :: e.1, e.2)) := by
  have hpasses : ∀ id,
      (listingPasses id q.iterations).filter (fun e => e.2.progress ≠ .notStarted) =
        q.iterations.flatMap fun p =>
          (started p.body).map fun e => ((id, p.index) :: e.1, e.2) := by
    intro id
    rw [listingPasses_eq, List.filter_flatMap]
    refine List.flatMap_congr fun p _ => ?_
    rw [List.filter_map]
    rfl
  rw [← hpasses, started, listingAll, listingAll, List.append_nil]
  obtain ⟨_, _, _, _, _, _, _, progress, _, _, _, _, _, _, _, _, _⟩ := q
  rw [listing, List.filter_cons, List.filter_append, List.filter_append]
  by_cases h : progress = .notStarted <;> simp [h, started]

mutual

/-- Nothing is started in a step that has not run. -/
theorem started_untouched : ∀ s : Step, started [untouched s] = []
  | ⟨id, kind, urn, params, exports, condition, onTrue, onFalse, iterateOn, itemAs, body⟩ => by
    rw [started_singleton, untouched]
    simp [started_untouchedAll onTrue, started_untouchedAll onFalse]

/-- Nothing is started in steps that have not run. -/
theorem started_untouchedAll : ∀ steps : List Step, started (untouchedAll steps) = []
  | [] => rfl
  | s :: rest => by
    rw [untouchedAll, started_cons, started_untouched s, started_untouchedAll rest,
      List.append_nil]

end

/-! ### The report of one step -/

/-- Every loop has all of its iterations in its history. -/
def AllOver (store : Store) : Prop :=
  ∀ s id r, (store.scope s).loops.get? id = some r → r.iterations = r.history

/-- What is shown as started of a step in a scope: nothing if there is no record of its node, and
    else the step, with what is shown of the branch that was chosen or of the iterations. -/
inductive Lists (store : Store) (scope : ScopeId) (s : Step) : Node → List (Place × Report) → Prop
  | absent {n : Node} :
      (∀ r, (store.scope scope).Holds n.id r → r.start n.id ≠ n.start) → Lists store scope s n []
  | action {id urn : String} {params exports : Dict String String} {r : ActionRecord} {q : Report} :
      (store.scope scope).actions.get? id = some r → q.Repeats s → q.Says store (.action r) →
      Lists store scope s (.action id urn params exports) [([], q)]
  | choice {id condition : String} {yes no : List Node} {r : ChoiceRecord} {q : Report} :
      (store.scope scope).choices.get? id = some r → q.Repeats s → q.Says store (.choice r) →
      Lists store scope s (.choice id condition yes no)
        (([], q) :: match r.outcome with
          | some b => started (annotate store scope (if b then s.onTrue else s.onFalse))
          | none => [])
  | loop {id elements : String} {itemAs : Option String} {body : List Node} {r : LoopRecord}
      {q : Report} :
      (store.scope scope).loops.get? id = some r → q.Repeats s → q.Says store (.loop r) →
      Lists store scope s (.loop id elements itemAs body)
        (([], q) :: r.history.entries.flatMap fun e =>
          (started (annotate store e.2.scope s.body)).map fun p => ((id, e.1) :: p.1, p.2))

/-- An untouched report repeats its step. -/
theorem repeats_untouched (s : Step) : (untouched s).Repeats s := by
  cases s
  rw [untouched]
  exact ⟨rfl, rfl, rfl, rfl, rfl, rfl, rfl⟩

/-- Something that has a record is started. -/
theorem progress_of_ne (isDone isWaiting : Bool) : Progress.of isDone isWaiting ≠ .notStarted := by
  cases isDone <;> cases isWaiting <;> decide

/-- The report of a step by its kind and its record. -/
theorem annotateStep_eq (store : Store) (scope : ScopeId) (s : Step) :
    annotateStep store scope s =
      if s.effectiveKind = Step.executeKind then
        match (store.scope scope).actions.get? (s.id.getD "") with
        | some r => (untouched s).withAction r
        | none => untouched s
      else if s.effectiveKind = Step.ifKind then
        match (store.scope scope).choices.get? (s.id.getD "") with
        | some r =>
          match r.outcome with
          | some true =>
            { (untouched s).withChoice r with onTrue := annotate store scope s.onTrue }
          | some false =>
            { (untouched s).withChoice r with onFalse := annotate store scope s.onFalse }
          | none => (untouched s).withChoice r
        | none => untouched s
      else if s.effectiveKind = Step.forKind then
        match (store.scope scope).loops.get? (s.id.getD "") with
        | some r =>
          { (untouched s).withLoop r with
            iterations := r.iterations.entries.map fun e =>
              ⟨e.1, e.2.value, (store.scope e.2.scope).error, annotate store e.2.scope s.body⟩ }
        | none => untouched s
      else untouched s := by
  have hkind := (repeats_untouched s).kind
  cases s
  rw [annotateStep]
  dsimp only at hkind ⊢
  rewrite [hkind]
  rfl

/-- The report of a step that was not started shows nothing but what is written. -/
structure Bare (q : Report) : Prop where
  started : started [q] = []
  onTrue : Report.started q.onTrue = []
  onFalse : Report.started q.onFalse = []
  iterations : q.iterations = []
  result : (q.raw, q.fields) = (none, ∅)

/-- An untouched report is `Bare`. -/
theorem bare_untouched (s : Step) : (untouched s).Bare := by
  have hnone := started_untouched s
  cases s
  rw [untouched] at hnone ⊢
  exact ⟨hnone, started_untouchedAll _, started_untouchedAll _, rfl, rfl⟩

/-- The record of an action does not change what the report repeats. -/
theorem Repeats.withAction {q : Report} {s : Step} (h : q.Repeats s) (r : ActionRecord) :
    (q.withAction r).Repeats s := by
  obtain ⟨hid, hkind, hurn, hparams, hexports, hcondition, hiterateOn⟩ := h
  unfold Report.withAction
  cases r.result with
  | none => exact ⟨hid, hkind, hurn, hparams, hexports, hcondition, hiterateOn⟩
  | some result =>
    dsimp only
    split <;> exact ⟨hid, hkind, hurn, hparams, hexports, hcondition, hiterateOn⟩

/-- A bare report with the record of an action says what the record does. -/
theorem Bare.tells_withAction {q : Report} (h : q.Bare) (hkind : q.kind = Step.executeKind)
    (store : Store) (r : ActionRecord) : (q.withAction r).Says store (.action r) := by
  obtain ⟨hraw, hfields⟩ := Prod.mk.inj h.result
  obtain ⟨_, _, _, _, result⟩ := r
  cases result with
  | none => exact ⟨hkind, rfl, rfl, rfl, h.result⟩
  | some result =>
    dsimp only [Report.withAction, Says]
    by_cases hempty : result.raw = ""
    · rw [if_pos hempty, if_pos (by rw [hempty]; rfl)]
      exact ⟨hkind, rfl, rfl, rfl, by rw [← hraw]⟩
    · rw [if_neg hempty, if_neg (by simpa using hempty)]
      exact ⟨hkind, rfl, rfl, rfl, by rw [← hfields]⟩

/-- A bare report with the record of an action is the only started one. -/
theorem Bare.started_withAction {q : Report} (h : q.Bare) (r : ActionRecord) :
    Report.started [q.withAction r] = [([], q.withAction r)] := by
  rw [started_singleton]
  unfold Report.withAction
  cases r.result with
  | none => simp [h.onTrue, h.onFalse, h.iterations, progress_of_ne]
  | some result =>
    dsimp only
    split <;> simp [h.onTrue, h.onFalse, h.iterations, progress_of_ne]

/-- The report of a choice with a record, by the branches that it shows. -/
theorem lists_choice {store : Store} {scope : ScopeId} {s : Step} {q : Report} {r : ChoiceRecord}
    {id condition : String} {yes no : List Node}
    (hr : (store.scope scope).choices.get? id = some r) (hkind : s.effectiveKind = Step.ifKind)
    (hq : q.Repeats s)
    (hshows : q.progress = .of r.done true ∧ q.error = r.error ∧ q.outcome = r.outcome ∧
      q.used = r.used)
    (hiterations : q.iterations = [])
    (hbranches : started q.onTrue ++ started q.onFalse = match r.outcome with
      | some b => started (annotate store scope (if b then s.onTrue else s.onFalse))
      | none => []) :
    Lists store scope s (.choice id condition yes no) (started [q]) := by
  rw [started_singleton, hshows.1, if_neg (progress_of_ne _ _), hiterations, hbranches,
    List.flatMap_nil, List.append_nil]
  exact .choice hr hq ⟨hq.kind.trans hkind, hshows⟩

/-- The report of a loop with a record, by the iterations that it shows. -/
theorem lists_loop {store : Store} {scope : ScopeId} {s : Step} {q : Report} {r : LoopRecord}
    {id elements : String} {itemAs : Option String} {body : List Node}
    (hr : (store.scope scope).loops.get? id = some r) (hid : s.id = some id)
    (hkind : s.effectiveKind = Step.forKind) (hq : q.Repeats s)
    (hshows : q.progress = .of r.done r.waiting ∧ q.error = r.error)
    (hbranches : started q.onTrue = [] ∧ started q.onFalse = [])
    (hiterations : q.iterations = r.history.entries.map fun e =>
      ⟨e.1, e.2.value, (store.scope e.2.scope).error, annotate store e.2.scope s.body⟩) :
    Lists store scope s (.loop id elements itemAs body) (started [q]) := by
  rw [started_singleton, hshows.1, if_neg (progress_of_ne _ _), hbranches.1, hbranches.2, hq.id,
    hid, hiterations, List.flatMap_map]
  refine .loop hr hq ⟨hq.kind.trans hkind, hshows.1, hshows.2, ?_⟩
  rw [hiterations, List.map_map]
  rfl

/-- **Reports of steps.** A report looks up the record of a node, the branch that it chose and the
    scopes of its iterations. -/
theorem lists_annotateStep {store : Store} (hover : AllOver store) (scope : ScopeId) {s : Step}
    {n : Node} (h : Graph.Titled s n) :
    Lists store scope s n (started [annotateStep store scope s]) := by
  have hrepeats := repeats_untouched s
  have hbare := bare_untouched s
  rw [annotateStep_eq]
  generalize untouched s = plain at *
  cases h with
  | action hid hkind =>
    rw [if_pos hkind, hid, Option.getD_some]
    cases hr : (store.scope scope).actions.get? _ with
    | none =>
      rw [hbare.started]
      refine .absent fun r hholds hstart => ?_
      cases hholds with
      | action hr' => cases hr.symm.trans hr'
      | _ => cases hstart
    | some r =>
      rw [hbare.started_withAction]
      exact .action hr (hrepeats.withAction r)
        (hbare.tells_withAction (hrepeats.kind.trans hkind) store r)
  | choice hid hkind hyes hno =>
    rw [if_neg (by rw [hkind]; decide), if_pos hkind, hid, Option.getD_some]
    cases hr : (store.scope scope).choices.get? _ with
    | none =>
      rw [hbare.started]
      refine .absent fun r hholds hstart => ?_
      cases hholds with
      | choice hr' => cases hr.symm.trans hr'
      | _ => cases hstart
    | some r =>
      obtain ⟨hid', hkind', hurn, hparams, hexports, hcondition, hiterateOn⟩ := hrepeats
      obtain ⟨done, error, used, outcome⟩ := r
      -- Only the branch that was chosen is looked up.
      rcases outcome with _ | _ | _ <;>
        refine lists_choice hr hkind
          ⟨hid', hkind', hurn, hparams, hexports, hcondition, hiterateOn⟩ ⟨rfl, rfl, rfl, rfl⟩
          hbare.iterations ?_ <;>
        simp [withChoice, hbare.onTrue, hbare.onFalse]
  | loop hid hkind hbody =>
    rw [if_neg (by rw [hkind]; decide), if_neg (by rw [hkind]; decide), if_pos hkind, hid,
      Option.getD_some]
    cases hr : (store.scope scope).loops.get? _ with
    | none =>
      rw [hbare.started]
      refine .absent fun r hholds hstart => ?_
      cases hholds with
      | loop hr' => cases hr.symm.trans hr'
      | _ => cases hstart
    | some r =>
      obtain ⟨hid', hkind', hurn, hparams, hexports, hcondition, hiterateOn⟩ := hrepeats
      dsimp only
      rw [hover _ _ _ hr]
      exact lists_loop hr hid hkind ⟨hid', hkind', hurn, hparams, hexports, hcondition, hiterateOn⟩
        ⟨rfl, rfl⟩ ⟨hbare.onTrue, hbare.onFalse⟩ rfl

/-! ### What is shown has a record -/

/-- What is shown of some steps at a place: one of them, and the record of one of some nodes, which
    has the id of the step.  The record is in the scope that the iterations of the place lead to. -/
inductive Shown (store : Store) (scope : ScopeId) (steps : List (Location × Step))
    (nodes : List Node) (e : Place × Report) : Prop
  | intro {p : Location × Step} {n : Node} {t : ScopeId} {r : Record} :
      p ∈ steps → e.2.Repeats p.2 → n ∈ nodes → p.2.id = some n.id →
      store.scopeAt? scope e.1 = some t → (store.scope t).Holds n.id r → e.2.Says store r →
      Shown store scope steps nodes e

/-- What is shown of some steps is shown of more. -/
theorem Shown.mono {store : Store} {scope : ScopeId} {steps steps' : List (Location × Step)}
    {nodes nodes' : List Node} {e : Place × Report} (h : Shown store scope steps nodes e)
    (hsteps : steps ⊆ steps') (hnodes : nodes ⊆ nodes') : Shown store scope steps' nodes' e := by
  obtain ⟨hp, hrepeats, hn, hid, hplace, hholds, htells⟩ := h
  exact ⟨hsteps hp, hrepeats, hnodes hn, hid, hplace, hholds, htells⟩

open Runbook.Graph (Titled TitledAll)
open Step (visit visitAll visit_eq visit_if visit_for)

variable {store : Store}

mutual

/-- `shown_steps` for a single step. -/
theorem shown_step (hover : AllOver store) {scope : ScopeId} {place : Location} :
    ∀ {n : Node} {s : Step}, Titled s n → ∀ e ∈ started [annotateStep store scope s],
      Shown store scope (visit place s) n.subtree e
  | .action .., s, h@(.action hid hkind), e, he => by
    have hlists := lists_annotateStep hover scope h
    generalize started [annotateStep store scope s] = shown at he hlists
    cases hlists with
    | absent => exact absurd he List.not_mem_nil
    | action hr hq htells =>
      rw [List.mem_singleton.1 he, visit_eq]
      exact ⟨List.mem_cons_self, hq, List.mem_cons_self, hid, rfl, .action hr, htells⟩
  | .choice _ _ yes no, s, h@(.choice hid hkind hyes hno), e, he => by
    have hlists := lists_annotateStep hover scope h
    generalize started [annotateStep store scope s] = shown at he hlists
    cases hlists with
    | absent => exact absurd he List.not_mem_nil
    | @choice _ _ _ _ r q hr hq htells =>
      rw [visit_if hkind, Node.subtree]
      rcases List.mem_cons.1 he with rfl | he
      · exact ⟨List.mem_cons_self, hq, List.mem_cons_self, hid, rfl, .choice hr, htells⟩
      · -- Only the branch that was taken is drawn.
        rcases houtcome : r.outcome with _ | _ | _ <;> rw [houtcome] at he
        · exact absurd he List.not_mem_nil
        · exact (shown_steps hover hno e he).mono
            (List.Subset.trans (List.subset_append_right _ _) (List.subset_cons_self _ _))
            (List.Subset.trans (List.subset_append_right _ _) (List.subset_cons_self _ _))
        · exact (shown_steps hover hyes e he).mono
            (List.Subset.trans (List.subset_append_left _ _) (List.subset_cons_self _ _))
            (List.Subset.trans (List.subset_append_left _ _) (List.subset_cons_self _ _))
  | .loop _ _ _ body, s, h@(.loop hid hkind hbody), e, he => by
    have hlists := lists_annotateStep hover scope h
    generalize started [annotateStep store scope s] = shown at he hlists
    cases hlists with
    | absent => exact absurd he List.not_mem_nil
    | @loop _ _ _ _ r q hr hq htells =>
      rw [visit_for hkind, Node.subtree]
      rcases List.mem_cons.1 he with rfl | he
      · exact ⟨List.mem_cons_self, hq, List.mem_cons_self, hid, rfl, .loop hr, htells⟩
      · -- Each iteration shows its own scope, one level further in.
        obtain ⟨i, hi, he⟩ := List.mem_flatMap.1 he
        obtain ⟨inner, hinner, rfl⟩ := List.mem_map.1 he
        obtain ⟨hp, hrepeats, hn, hid', hplace, hholds, hshows⟩ :=
          shown_steps hover hbody inner hinner
        refine ⟨List.mem_cons_of_mem _ hp, hrepeats, List.mem_cons_of_mem _ hn, hid', ?_, hholds,
          hshows⟩
        rw [Store.scopeAt?, hr, Option.bind_some, Dict.mem_entries.1 hi]
        exact hplace

/-- **Soundness.** Whatever is shown as started has a record of its node. -/
theorem shown_steps (hover : AllOver store) {scope : ScopeId} {place : Location}
    {position : Nat} : ∀ {nodes : List Node} {steps : List Step}, TitledAll steps nodes →
      ∀ e ∈ started (annotate store scope steps),
        Shown store scope (visitAll place position steps) (Node.listing nodes) e
  | [], _, .nil, e, he => absurd he List.not_mem_nil
  | n :: rest, _, .cons hn hrest, e, he => by
    rw [annotate, started_cons] at he
    rw [visitAll, Node.listing]
    rcases List.mem_append.1 he with he | he
    · exact (shown_step hover hn e he).mono (List.subset_append_left _ _)
        (List.subset_append_left _ _)
    · exact (shown_steps hover hrest e he).mono (List.subset_append_right _ _)
        (List.subset_append_right _ _)

end

/-! ### Nothing is shown twice -/

/-- Where something is shown, and of which step. -/
def spot (e : Place × Report) : Place × Option String := (e.1, e.2.id)

/-- What is shown of a step has the id of one of its nodes. -/
theorem id_of_step (hover : AllOver store) {scope : ScopeId} {s : Step} {n : Node}
    {e : Place × Report} (h : Titled s n) (he : e ∈ started [annotateStep store scope s]) :
    ∃ n' ∈ n.subtree, e.2.id = some n'.id := by
  have hshown : Shown store scope (visit .root s) n.subtree e := shown_step hover h e he
  obtain ⟨-, hrepeats, hn, hid, -, -, -⟩ := hshown
  exact ⟨_, hn, hrepeats.id.trans hid⟩

/-- `id_of_step` for steps in a row. -/
theorem id_of_steps (hover : AllOver store) {scope : ScopeId} {steps : List Step}
    {nodes : List Node} {e : Place × Report} (h : TitledAll steps nodes)
    (he : e ∈ started (annotate store scope steps)) :
    ∃ n ∈ Node.listing nodes, e.2.id = some n.id := by
  have hshown : Shown store scope (visitAll .root 0 steps) (Node.listing nodes) e :=
    shown_steps hover h e he
  obtain ⟨-, hrepeats, hn, hid, -, -, -⟩ := hshown
  exact ⟨_, hn, hrepeats.id.trans hid⟩

/-- What is shown of a branch has the ids of nodes in the branch, which the choice has not. -/
theorem nodup_branch {id : String} {q : Report} {shown : List (Place × Report)} {nodes : List Node}
    (hq : q.id = some id) (hown : id ∉ nodes.map Node.id)
    (hshown : ∀ e ∈ shown, ∃ n ∈ nodes, e.2.id = some n.id) (h : (shown.map spot).Nodup) :
    ((([], q) :: shown).map spot).Nodup := by
  rw [List.map_cons, List.nodup_cons]
  refine ⟨fun hmem => ?_, h⟩
  obtain ⟨e, he, heq⟩ := List.mem_map.1 hmem
  obtain ⟨n, hn, hid⟩ := hshown e he
  have hsame : some n.id = some id := hid.symm.trans ((congrArg Prod.snd heq).trans hq)
  exact hown (List.mem_map.2 ⟨n, hn, Option.some.inj hsame⟩)

/-- What is shown in the iterations of a loop is shown once if so it is in each of them, and it is
    not where the loop is. -/
theorem nodup_iterations {id : String} {its : List (Int × Iteration)} {q : Report}
    {shown : Iteration → List (Place × Report)} (hits : its.Pairwise fun a b => a.1 < b.1)
    (h : ∀ i, ((shown i).map spot).Nodup) :
    ((([], q) :: its.flatMap fun e => (shown e.2).map fun p => ((id, e.1) :: p.1, p.2)).map
      spot).Nodup := by
  rw [List.map_cons, List.map_flatMap, List.nodup_cons, List.nodup_flatMap]
  refine ⟨?_, fun e _ => ?_, hits.imp fun hlt p hp hp' => ?_⟩
  · simp [spot]
  · -- Only the iteration is put in front of each place.
    have hinj : Function.Injective fun p : Place × Option String => ((id, e.1) :: p.1, p.2) := by
      rintro ⟨place, id⟩ ⟨place', id'⟩ heq
      obtain ⟨hplace, hid⟩ := Prod.mk.inj heq
      exact Prod.ext (List.cons.inj hplace).2 hid
    have hnodup := (h e.2).map hinj
    rwa [List.map_map] at hnodup ⊢
  · simp only [List.map_map, List.mem_map] at hp hp'
    obtain ⟨a, -, rfl⟩ := hp
    obtain ⟨b, -, heq⟩ := hp'
    have hplace := (List.cons.inj (congrArg Prod.fst heq)).1
    exact absurd (congrArg Prod.snd hplace).symm (Int.ne_of_lt hlt)

mutual

/-- `nodup_steps` for a single step. -/
theorem nodup_step (hover : AllOver store) {scope : ScopeId} : ∀ {n : Node} {s : Step},
    Titled s n → (n.subtree.map Node.id).Nodup →
      ((started [annotateStep store scope s]).map spot).Nodup
  | .action .., s, h, hids => by
    have hlists := lists_annotateStep hover scope h
    generalize started [annotateStep store scope s] = shown at hlists
    cases hlists with
    | absent => exact List.nodup_nil
    | action => exact List.nodup_singleton _
  | .choice _ _ yes no, s, h@(.choice hid hkind hyes hno), hids => by
    have hlists := lists_annotateStep hover scope h
    generalize started [annotateStep store scope s] = shown at hlists
    rw [Node.subtree, List.map_cons, List.map_append, List.nodup_cons, List.mem_append,
      List.nodup_append] at hids
    obtain ⟨hown, hyesIds, hnoIds, -⟩ := hids
    cases hlists with
    | absent => exact List.nodup_nil
    | @choice _ _ _ _ r q hr hq htells =>
      rcases r.outcome with _ | _ | _
      · exact List.nodup_singleton _
      · exact nodup_branch (hq.id.trans hid) (fun h => hown (.inr h))
          (fun e he => id_of_steps hover hno he) (nodup_steps hover hno hnoIds)
      · exact nodup_branch (hq.id.trans hid) (fun h => hown (.inl h))
          (fun e he => id_of_steps hover hyes he) (nodup_steps hover hyes hyesIds)
  | .loop _ _ _ body, s, h@(.loop hid hkind hbody), hids => by
    have hlists := lists_annotateStep hover scope h
    generalize started [annotateStep store scope s] = shown at hlists
    rw [Node.subtree, List.map_cons, List.nodup_cons] at hids
    cases hlists with
    | absent => exact List.nodup_nil
    | loop hr hq htells =>
      exact nodup_iterations (Dict.sorted _) fun i => nodup_steps hover hbody hids.2

/-- **Nothing twice.** No node is shown as started twice at one place. -/
theorem nodup_steps (hover : AllOver store) {scope : ScopeId} : ∀ {nodes : List Node}
    {steps : List Step}, TitledAll steps nodes → ((Node.listing nodes).map Node.id).Nodup →
      ((started (annotate store scope steps)).map spot).Nodup
  | [], _, .nil, _ => List.nodup_nil
  | n :: rest, _, .cons hn hrest, hids => by
    rw [Node.listing, List.map_append, List.nodup_append] at hids
    obtain ⟨hfirst, hlater, hdisjoint⟩ := hids
    rw [annotate, started_cons, List.map_append, List.nodup_append]
    refine ⟨nodup_step hover hn hfirst, nodup_steps hover hrest hlater, fun p hp p' hp' => ?_⟩
    obtain ⟨e, he, rfl⟩ := List.mem_map.1 hp
    obtain ⟨e', he', rfl⟩ := List.mem_map.1 hp'
    -- The ids of the nodes tell what is shown of them apart.
    obtain ⟨n₁, hn₁, hid⟩ := id_of_step hover hn he
    obtain ⟨n₂, hn₂, hid'⟩ := id_of_steps hover hrest he'
    intro heq
    have hsame : some n₁.id = some n₂.id := hid.symm.trans ((congrArg Prod.snd heq).trans hid')
    exact hdisjoint _ (List.mem_map_of_mem hn₁) _ (List.mem_map_of_mem hn₂) (Option.some.inj hsame)

end

/-! ### What a run comes to is shown -/

/-- The step of a node, whose report is part of the whole. -/
theorem exists_titled {scope : ScopeId} {steps : List Step} {nodes : List Node} {n : Node}
    (h : TitledAll steps nodes) (hn : n ∈ nodes) :
    ∃ s, Titled s n ∧
      started [annotateStep store scope s] ⊆ started (annotate store scope steps) := by
  induction nodes generalizing steps with
  | nil => exact absurd hn List.not_mem_nil
  | cons n' rest ih =>
    cases h with
    | cons hfirst hrest =>
      rw [annotate, started_cons]
      rcases List.mem_cons.1 hn with rfl | hn
      · exact ⟨_, hfirst, List.subset_append_left _ _⟩
      · obtain ⟨s, hs, hsub⟩ := ih hrest hn
        exact ⟨s, hs, List.Subset.trans hsub (List.subset_append_right _ _)⟩

/-- What is on record of a node is shown where the node is. -/
theorem mem_started_here (hover : AllOver store) {scope : ScopeId} {s : Step} {n : Node}
    {r : Record} (h : Titled s n) (hr : (store.scope scope).Holds n.id r)
    (hstart : r.start n.id = n.start) :
    ∃ q, ([], q) ∈ started [annotateStep store scope s] ∧ q.id = some n.id ∧ q.Says store r := by
  have hlists := lists_annotateStep hover scope h
  generalize started [annotateStep store scope s] = shown at hlists
  cases hlists with
  | absent hnone => exact absurd hstart (hnone r hr)
  | action hr' hq htells =>
    cases hr with
    | action hr =>
      obtain rfl := Option.some.inj (hr'.symm.trans hr)
      cases h with
      | action hid => exact ⟨_, List.mem_cons_self, hq.id.trans hid, htells⟩
    | _ => cases hstart
  | choice hr' hq htells =>
    cases hr with
    | choice hr =>
      obtain rfl := Option.some.inj (hr'.symm.trans hr)
      cases h with
      | choice hid => exact ⟨_, List.mem_cons_self, hq.id.trans hid, htells⟩
    | _ => cases hstart
  | loop hr' hq htells =>
    cases hr with
    | loop hr =>
      obtain rfl := Option.some.inj (hr'.symm.trans hr)
      cases h with
      | loop hid => exact ⟨_, List.mem_cons_self, hq.id.trans hid, htells⟩
    | _ => cases hstart

/-- **Completeness.** A node that a run comes to and whose record it makes is shown as started,
    with its record, where the run came to it. -/
theorem mem_started {backend : Backend} {seed : Dict String Value} {scopes : ScopeId → Prop}
    {m : Machine} {all nodes : List Node} {top s : ScopeId} {n : Node}
    (htells : Tells scopes all m.course) (hm : m.Sound backend seed) (hover : AllOver m.store)
    (h : Meets m.course top nodes s n) (hstart : .changed s n.start ∈ m.course) :
    ∀ {steps : List Step}, TitledAll steps nodes → ∃ place q r,
      (place, q) ∈ started (annotate m.store top steps) ∧ m.store.scopeAt? top place = some s ∧
        q.id = some n.id ∧ (m.store.scope s).Holds n.id r ∧ q.Says m.store r := by
  induction h with
  | here hn =>
    intro steps ht
    obtain ⟨s, hs, hsub⟩ := exists_titled ht hn
    obtain ⟨r, hholds, hr⟩ := htells.of_start hm hstart
    obtain ⟨q, hq, hid, hshows⟩ := mem_started_here hover hs hholds hr
    exact ⟨[], q, r, hsub hq, rfl, hid, hholds, hshows⟩
  | @branch top _ _ yes no _ _ _ b _ hn hdecide _ ih =>
    intro steps ht
    obtain ⟨s, hs, hsub⟩ := exists_titled ht hn
    obtain ⟨r, hr, houtcome⟩ := htells.of_decision hm hdecide
    have hlists := lists_annotateStep hover top hs
    generalize started [annotateStep m.store top s] = shown at hlists hsub
    cases hs with
    | choice hid hkind hyes hno =>
      cases hlists with
      | absent hnone => exact absurd rfl (hnone _ (.choice hr))
      | choice hr' hq htells =>
        obtain rfl := Option.some.inj (hr'.symm.trans hr)
        -- The record shows the outcome, so this branch is drawn.
        rw [houtcome] at hsub
        have hbranch : TitledAll (if b then s.onTrue else s.onFalse) (if b then yes else no) := by
          cases b
          · exact hno
          · exact hyes
        obtain ⟨place, q, r, hmem, hrest⟩ := ih hstart hbranch
        exact ⟨place, q, r, hsub (List.mem_cons_of_mem _ hmem), hrest⟩
  | @iteration top t _ _ body _ id _ _ _ v hn hbegin _ ih =>
    intro steps ht
    obtain ⟨s, hs, hsub⟩ := exists_titled ht hn
    obtain ⟨r, k, hr, hk⟩ := htells.of_iteration hm hbegin
    have hlists := lists_annotateStep hover top hs
    generalize started [annotateStep m.store top s] = shown at hlists hsub
    cases hs with
    | loop hid hkind hbody =>
      cases hlists with
      | absent hnone => exact absurd rfl (hnone _ (.loop hr))
      | loop hr' hq htells =>
        obtain rfl := Option.some.inj (hr'.symm.trans hr)
        obtain ⟨place, q, r', hmem, hplace, hrest⟩ := ih hstart hbody
        -- The record lists the iteration, so its body is drawn under its number.
        refine ⟨(id, k) :: place, q, r', hsub (List.mem_cons_of_mem _ ?_), ?_, hrest⟩
        · exact List.mem_flatMap.2 ⟨(k, ⟨v, t⟩), Dict.mem_entries.2 hk,
            List.mem_map.2 ⟨(place, q), hmem, rfl⟩⟩
        · rw [Store.scopeAt?, hr', Option.bind_some, hk]
          exact hplace

end Report

/-! ### The iterations that have begun -/

/-- The iteration of a loop that begins, with its number. -/
def Occurrence.iteration? (s : ScopeId) (id : String) : Occurrence → Option (Int × Iteration)
  | changed t (.startIteration id' k v child) =>
    if t = s ∧ id' = id then some (k, ⟨v, child⟩) else none
  | _ => none

/-- The iterations of a loop that have begun, in order. -/
def begun (s : ScopeId) (id : String) (happened : List Occurrence) : List (Int × Iteration) :=
  happened.filterMap (Occurrence.iteration? s id)

/-- The iterations that begin in two stretches. -/
theorem begun_append (s : ScopeId) (id : String) (happened later : List Occurrence) :
    begun s id (happened ++ later) = begun s id happened ++ begun s id later :=
  List.filterMap_append

/-- The iterations that `iterationsOf` puts on record begin with their numbers. -/
theorem begun_iterationsOf (s : ScopeId) (id : String) (its : List Iteration) :
    begun s id (iterationsOf s id 1 its) = numbered its := by
  rw [begun, iterationsOf_eq_map, List.filterMap_map, numbered, ← List.filterMap_eq_map]
  refine List.filterMap_congr fun p _ => ?_
  simp [Occurrence.iteration?]

/-- What has begun of a loop is part of what is about it. -/
theorem begun_aboutNode (s : ScopeId) (id : String) (happened : List Occurrence) :
    begun s id (aboutNode s id happened) = begun s id happened := by
  rw [begun, aboutNode, List.filterMap_filter]
  refine List.filterMap_congr fun o _ => ?_
  cases o with
  | changed t c =>
    cases c with
    | startIteration id' =>
      by_cases h : t = s ∧ id' = id <;>
        simp [Occurrence.iteration?, Occurrence.about?, Change.node?, h]
    | _ => simp [Occurrence.iteration?]
  | _ => simp [Occurrence.iteration?]

/-- The current iteration of a loop that is over is in its history. -/
theorem LoopRecord.iterations_over (its : List Iteration) (error : Option String) :
    (LoopRecord.over its error).iterations = (LoopRecord.over its error).history := by
  rcases List.eq_nil_or_concat its with rfl | ⟨init, i, rfl⟩
  · rfl
  · simp [iterations, LoopRecord.over, lastIndex, historyOf_concat, Dict.contains]

section

variable {x : Execution} {seed : Dict String Value} {scopes : ScopeId → Prop}
  {nodes : List Node} {m : Machine}

/-- After a run no loop is in an iteration that is not in its history. -/
theorem Tells.allOver (h : Tells scopes nodes m.course) (hm : m.Sound x.backend seed) :
    Report.AllOver m.store := by
  intro s id r hr
  obtain ⟨its, c, -, -, rfl⟩ := h.of_loop hm hr
  exact LoopRecord.iterations_over _ _

/-- The history of a loop lists the iterations that have begun. -/
theorem Tells.begun_eq (h : Tells scopes nodes m.course) (hm : m.Sound x.backend seed) {s : ScopeId}
    {id : String} {r : LoopRecord} (hr : (m.store.scope s).loops.get? id = some r) :
    begun s id m.course = r.history.entries := by
  obtain ⟨its, c, hc, hstory, rfl⟩ := h.of_loop hm hr
  have hend : begun s id [.changed s c] = [] := by
    rcases hc with rfl | ⟨reason, rfl⟩ <;> rfl
  rw [← begun_aboutNode, hstory, begun_append, begun_append, begun_iterationsOf, hend,
    List.append_nil, LoopRecord.over, entries_historyOf]
  rfl

end

/-! ### Reports of runs -/

/-- The report on a document after a run says what is on record, no less and no more. -/
structure Reported (document : List Step) (m : Machine) : Prop where
  /-- No step is shown as started twice at one place. -/
  distinct : ((Report.started (Report.annotate m.store m.root document)).map Report.spot).Nodup
  /-- Whatever is shown as started repeats a step of the document, and says what is on record of
      the step in the scope that the iterations around it lead to. -/
  sound : ∀ e ∈ Report.started (Report.annotate m.store m.root document),
    ∃ p ∈ Step.visitAll .root 0 document, ∃ id s r, e.2.Repeats p.2 ∧ p.2.id = some id ∧
      m.store.scopeAt? m.root e.1 = some s ∧ (m.store.scope s).Holds id r ∧ e.2.Says m.store r
  /-- Whatever is on record in a scope that iterations lead to is shown there. -/
  complete : ∀ place s id r, m.store.scopeAt? m.root place = some s →
    (m.store.scope s).Holds id r →
      ∃ q, (place, q) ∈ Report.started (Report.annotate m.store m.root document) ∧
        q.id = some id ∧ q.Says m.store r
  /-- A scope has one thing on record of a node. -/
  single : ∀ s id r r', (m.store.scope s).Holds id r → (m.store.scope s).Holds id r' → r = r'
  /-- One way leads to a scope. -/
  places : ∀ place place' s, m.store.scopeAt? m.root place = some s →
    m.store.scopeAt? m.root place' = some s → place = place'
  /-- A loop is shown with the iterations that have begun, in the order of their numbers, each with
      its value and the error of its scope. -/
  iterations : ∀ e ∈ Report.started (Report.annotate m.store m.root document), ∀ id s,
    e.2.kind = Step.forKind → e.2.id = some id → m.store.scopeAt? m.root e.1 = some s →
      (e.2.iterations.map (·.index)).Pairwise (· < ·) ∧
        e.2.iterations.map (fun p => (p.index, p.value, p.error)) =
          (begun s id m.course).map fun i => (i.1, i.2.value, (m.store.scope i.2.scope).error)

/-- The numbers of the iterations that a report shows are those of the history, so they increase. -/
theorem Report.pairwise_iterations {q : Report} {store : Store} {r : LoopRecord}
    (h : q.Says store (.loop r)) : (q.iterations.map (·.index)).Pairwise (· < ·) := by
  have hkeys := congrArg (List.map Prod.fst) h.2.2.2
  rw [List.map_map, List.map_map] at hkeys
  rw [show q.iterations.map (·.index) = r.history.entries.map Prod.fst from hkeys]
  exact List.pairwise_map.2 r.history.sorted

/-- **Reports.** After the first run of a graph that was built from a document with the ids of the
    graph, the report on the document and the records of the run correspond one to one. -/
theorem reported_start {document : List Step} {ids rest : IdSource} (x : Execution)
    (h : Graph.build document ids = (.ok x.graph, rest)) (hnames : Graph.Names document x.graph)
    (seed : Dict String Value) (events : List Event) :
    Reported document (x.start (.scheduled seed events)).2 := by
  obtain ⟨hbuilt, hd⟩ := Graph.build_ok h
  have htitled := Graph.titled_of_builtAll hbuilt hnames
  have htells := tells_start x seed events hd
  obtain ⟨count, hnumbers⟩ := numbers_start x seed events
  obtain ⟨happened, hstarted, hcourse, hsound⟩ := start_scheduled x seed events
  obtain ⟨m₁, hexec, -⟩ := hstarted.exec
  have hready := hstarted.ready
  generalize x.start (.scheduled seed events) = ended at *
  obtain ⟨outcome, m⟩ := ended
  dsimp only at *
  have hover := htells.allOver hsound
  have hroot : m.root = 0 := hsound.root
  constructor
  case distinct =>
    rw [hroot]
    exact Report.nodup_steps hover htitled hd
  case sound =>
    rw [hroot]
    intro e he
    obtain ⟨hp, hrepeats, hn, hid, hplace, hholds, hshows⟩ := Report.shown_steps hover htitled e he
    exact ⟨_, hp, _, _, _, hrepeats, hid, hplace, hholds, hshows⟩
  case complete =>
    rw [hroot]
    intro place s id r hplace hholds
    obtain ⟨hstart, hsingle⟩ := htells.of_holds hsound hholds
    -- The run has come to the node of the record, on a way that leads to its scope.
    have hmem : .changed s (r.start id) ∈ happened := by
      rw [hcourse] at hstart
      refine (List.mem_append.1 hstart).resolve_right (not_mem_changed (r.starts_start id) ?_)
      rcases outcome with f | ⟨⟩ <;> rfl
    obtain ⟨n, hn, hmeets⟩ := hexec.meets hready hmem (r.starts_start id)
    obtain ⟨place', q, r', hq, hplace', hid, hholds', hshows⟩ := Report.mem_started htells hsound
      hover (hmeets.mono (hcourse ▸ List.subset_append_left _ _)) (hn ▸ hstart) htitled
    obtain rfl : n.id = id := by
      cases n <;> cases r <;> cases hn <;> rfl
    obtain rfl := htells.place_unique hsound hnumbers hplace hplace'
    obtain rfl := hsingle r' hholds'
    exact ⟨q, hq, hid, hshows⟩
  case single =>
    intro s id r r' hr hr'
    exact (htells.of_holds hsound hr').2 r hr
  case places =>
    rw [hroot]
    exact fun place place' s => htells.place_unique hsound hnumbers
  case iterations =>
    rw [hroot]
    intro e he id s hkind hid hplace
    have hshown : Report.Shown m.store 0 (Step.visitAll .root 0 document) _ e :=
      Report.shown_steps hover htitled e he
    obtain ⟨-, hrepeats, -, hid', hplace', hholds, hshows⟩ := hshown
    obtain rfl := Option.some.inj (hplace.symm.trans hplace')
    obtain rfl := Option.some.inj ((hid.symm.trans hrepeats.id).trans hid')
    cases hholds with
    | action => exact absurd (hkind.symm.trans hshows.1) (by decide)
    | choice => exact absurd (hkind.symm.trans hshows.1) (by decide)
    | loop hr =>
      refine ⟨Report.pairwise_iterations hshows, ?_⟩
      rw [htells.begun_eq hsound hr]
      exact hshows.2.2.2

/-! ### The report of a run with a loop in a choice -/

/-- The steps of `nestedSteps` with the ids of its graph. -/
def namedSteps : List Step :=
  [{ Step.choose "$a==1" with
      id := some "c"
      onTrue := [{ Step.forEach " $h" with
        id := some "1", itemAs := some "$x"
        body := [{ Step.execute " u" with id := some "2", params := .singleton "p" "$x" }] }]
      onFalse := [{ Step.execute "v" with id := some "3" }] },
    { Step.execute "w" with id := some "4" }]

/-- `namedSteps` is `nestedSteps` with all ids written down, so no id is supplied. -/
theorem build_namedSteps : Graph.build namedSteps .fresh = (.ok Graph.nestedGraph, .fresh) := by
  rw [Graph.build_eq]
  rfl

/-- The ids of `namedSteps` are those of the graph. -/
theorem names_namedSteps : Graph.Names namedSteps Graph.nestedGraph := by
  unfold Graph.Names
  decide +kernel

/-- The action in the loop, the node `2`, is shown as started in both rounds, and the node in the
    other branch of the choice is not. -/
theorem reported_nestedRun :
    Graph.build namedSteps .fresh = (.ok nestedRun.graph, .fresh) ∧
      Graph.Names namedSteps nestedRun.graph ∧
      (Report.started (Report.annotate (nestedRun.start (.scheduled ∅ nestedEvents)).2.store 0
        namedSteps)).map Report.spot =
          [([], some "c"), ([], some "1"), ([("1", 1)], some "2"), ([("1", 2)], some "2")] ∧
      Reported namedSteps (nestedRun.start (.scheduled ∅ nestedEvents)).2 :=
  ⟨build_namedSteps, names_namedSteps, by decide +kernel,
    reported_start nestedRun build_namedSteps names_namedSteps ∅ nestedEvents⟩

end Runbook
