import Mathlib.Data.List.Forall2
import Runbook.Proofs.Run.Reported

namespace Runbook

/-!
# Reports — what they take from the document and from the scopes

A report may be made from scopes with any content, also from records that no run would make.  Its
shape is that of the document, and of the scopes it shows the records of those steps only that no
choice has passed over.

* `Scope.recordFor?`, `Report.annotateStep_eq_head` — the one record that a step is reported from;
* `Report.Mirrors` — a report with the shape of a step, `Report.Blank` in the branches not taken;
* `Report.Agree` — two scopes with the same records of a step, and of the steps inside it that are
  looked up;
* `Report.annotateStep_eq_of_agree`, `Report.agree_of_annotateStep_eq` — what equal reports have in
  common;
* `Report.reflects_annotate` — the law for all documents and all stores.
-/

/-! ### The record of a step -/

namespace Step

/-- The steps of a branch. -/
def branch (s : Step) (b : Bool) : List Step := if b then s.onTrue else s.onFalse

mutual

/-- Induction on the steps inside a step. -/
theorem inside {P : Step → Prop}
    (parts : ∀ s : Step, (∀ b, ∀ p ∈ s.branch b, P p) → (∀ p ∈ s.body, P p) → P s) : ∀ s, P s
  | ⟨_, _, _, _, _, _, onTrue, onFalse, _, _, body⟩ => by
    refine parts _ (fun b => ?_) (inside_all parts body)
    cases b with
    | true => exact inside_all parts onTrue
    | false => exact inside_all parts onFalse

/-- `inside` for the steps of a block. -/
theorem inside_all {P : Step → Prop}
    (parts : ∀ s : Step, (∀ b, ∀ p ∈ s.branch b, P p) → (∀ p ∈ s.body, P p) → P s) :
    ∀ steps : List Step, ∀ p ∈ steps, P p
  | [], _, hp => absurd hp List.not_mem_nil
  | s :: rest, p, hp =>
    (List.mem_cons.1 hp).elim (fun heq => heq ▸ inside parts s) (inside_all parts rest p)

end

end Step

namespace Record

/-- The outcome on record, if the record is of a choice. -/
def outcome? : Record → Option Bool
  | choice r => r.outcome
  | _ => none

/-- The iterations on record, if the record is of a loop. -/
def iterations : Record → Dict Int Iteration
  | loop r => r.iterations
  | _ => ∅

/-- What is on record apart from iterations. -/
def apart : Record → Record
  | loop r => loop { waiting := r.waiting, done := r.done, error := r.error }
  | r => r

/-- What a choice has decided is not among the notes taken apart. -/
theorem outcome?_apart (r : Record) : r.apart.outcome? = r.outcome? := by
  cases r <;> rfl

end Record

namespace Scope

/-- The record that a scope has of a step, among the records of the step's kind. -/
def recordFor? (known : Scope) (s : Step) : Option Record :=
  if s.effectiveKind = Step.executeKind then (known.actions.get? (s.id.getD "")).map .action
  else if s.effectiveKind = Step.ifKind then (known.choices.get? (s.id.getD "")).map .choice
  else if s.effectiveKind = Step.forKind then (known.loops.get? (s.id.getD "")).map .loop
  else none

/-- The outcome on record of a step. -/
def outcomeOf? (known : Scope) (s : Step) : Option Bool :=
  (known.recordFor? s).bind Record.outcome?

/-- The iterations on record of a step. -/
def iterationsOf (known : Scope) (s : Step) : Dict Int Iteration :=
  (known.recordFor? s).elim ∅ Record.iterations

/-- Records that agree `apart` have decided alike. -/
theorem outcomeOf?_eq_of_apart {known known' : Scope} {s : Step}
    (h : (known.recordFor? s).map Record.apart = (known'.recordFor? s).map Record.apart) :
    known.outcomeOf? s = known'.outcomeOf? s := by
  have houtcome : ∀ known : Scope,
      known.outcomeOf? s = ((known.recordFor? s).map Record.apart).bind Record.outcome? := by
    intro known
    rw [outcomeOf?, Option.bind_map]
    exact congrArg _ (funext fun r => r.outcome?_apart.symm)
  rw [houtcome, h, ← houtcome]

end Scope

namespace Report

/-- The reports of a branch. -/
def branch (q : Report) (b : Bool) : List Report := if b then q.onTrue else q.onFalse

/-- What is shown of a step itself. -/
def head (s : Step) : Option Record → Report
  | none => untouched s
  | some (.action r) => (untouched s).withAction r
  | some (.choice r) => (untouched s).withChoice r
  | some (.loop r) => (untouched s).withLoop r

/-- What is shown of a branch: only the one on record is looked up. -/
def drawnBranch (store : Store) (scope : ScopeId) (s : Step) (b : Bool) : List Report :=
  if (store.scope scope).outcomeOf? s = some b then annotate store scope (s.branch b)
  else untouchedAll (s.branch b)

/-- What is shown of an iteration. -/
def pass (store : Store) (body : List Step) (e : Int × Iteration) : Pass Report :=
  ⟨e.1, e.2.value, (store.scope e.2.scope).error, annotate store e.2.scope body⟩

/-- `head` shows a record as it is `apart`. -/
theorem head_apart (s : Step) (record : Option Record) :
    head s (record.map Record.apart) = head s record := by
  rcases record with _ | _ | _ | _ <;> rfl

/-- `untouchedAll` step by step. -/
theorem untouchedAll_eq_map (steps : List Step) : untouchedAll steps = steps.map untouched := by
  induction steps with
  | nil => rfl
  | cons s rest ih => rw [untouchedAll, ih, List.map_cons]

/-- `annotate` step by step. -/
theorem annotate_eq_map (store : Store) (scope : ScopeId) (steps : List Step) :
    annotate store scope steps = steps.map (annotateStep store scope) := by
  induction steps with
  | nil => rfl
  | cons s rest ih => rw [annotate, ih, List.map_cons]

/-- The branches of a step that has not run have not run. -/
theorem branch_untouched (s : Step) (b : Bool) :
    (untouched s).branch b = untouchedAll (s.branch b) := by
  cases s
  cases b <;> rfl

/-- The record of an action changes nothing in what is inside the step. -/
theorem eta_withAction (s : Step) (r : ActionRecord) :
    (untouched s).withAction r = { (untouched s).withAction r with
      onTrue := untouchedAll (s.branch true)
      onFalse := untouchedAll (s.branch false)
      iterations := [] } := by
  cases s
  unfold withAction
  cases r.result with
  | none => rfl
  | some result =>
    dsimp only
    split <;> rfl

/-- **The report of a step.** It is made from the record of the step, of which the outcome and the
    iterations say what else is looked up. -/
theorem annotateStep_eq_head (store : Store) (scope : ScopeId) (s : Step) :
    annotateStep store scope s =
      { head s ((store.scope scope).recordFor? s) with
        onTrue := drawnBranch store scope s true
        onFalse := drawnBranch store scope s false
        iterations := ((store.scope scope).iterationsOf s).entries.map (pass store s.body) } := by
  have hplain : untouched s = { untouched s with
      onTrue := untouchedAll (s.branch true)
      onFalse := untouchedAll (s.branch false)
      iterations := [] } := by
    cases s
    rfl
  rw [annotateStep_eq, drawnBranch, drawnBranch, Scope.outcomeOf?, Scope.iterationsOf,
    Scope.recordFor?]
  by_cases hexecute : s.effectiveKind = Step.executeKind
  · rw [if_pos hexecute, if_pos hexecute]
    cases (store.scope scope).actions.get? (s.id.getD "") with
    | none => exact hplain
    | some r => exact eta_withAction s r
  rw [if_neg hexecute, if_neg hexecute]
  by_cases hif : s.effectiveKind = Step.ifKind
  · rw [if_pos hif, if_pos hif]
    cases (store.scope scope).choices.get? (s.id.getD "") with
    | none => exact hplain
    | some r =>
      obtain ⟨done, error, used, outcome⟩ := r
      rw [hplain]
      -- An outcome draws one branch, and none draws neither.
      rcases outcome with _ | _ | _ <;> rfl
  rw [if_neg hif, if_neg hif]
  by_cases hfor : s.effectiveKind = Step.forKind
  · rw [if_pos hfor, if_pos hfor]
    cases (store.scope scope).loops.get? (s.id.getD "") with
    | none => exact hplain
    | some r =>
      rw [hplain]
      rfl
  · rw [if_neg hfor, if_neg hfor]
    exact hplain

variable {store store' : Store} {scope scope' : ScopeId} {s : Step}

/-- The branches of the report of a step. -/
theorem branch_annotateStep (b : Bool) :
    (annotateStep store scope s).branch b = drawnBranch store scope s b := by
  rw [annotateStep_eq_head]
  cases b <;> rfl

/-- A report has a pass for each iteration that the record of the step has. -/
theorem iterations_annotateStep :
    (annotateStep store scope s).iterations =
      ((store.scope scope).iterationsOf s).entries.map (pass store s.body) := by
  rw [annotateStep_eq_head]

/-- Whatever the records are, the report of a step repeats the step. -/
theorem repeats_annotateStep : (annotateStep store scope s).Repeats s := by
  have hplain := repeats_untouched s
  have hhead : (head s ((store.scope scope).recordFor? s)).Repeats s := by
    rcases (store.scope scope).recordFor? s with _ | r | r | r
    · exact hplain
    · exact hplain.withAction r
    · exact ⟨hplain.id, hplain.kind, hplain.urn, hplain.params, hplain.exports, hplain.condition,
        hplain.iterateOn⟩
    · exact ⟨hplain.id, hplain.kind, hplain.urn, hplain.params, hplain.exports, hplain.condition,
        hplain.iterateOn⟩
  rw [annotateStep_eq_head]
  exact ⟨hhead.id, hhead.kind, hhead.urn, hhead.params, hhead.exports, hhead.condition,
    hhead.iterateOn⟩

/-! ### The shape of a report -/

/-- Nothing is shown of a step but what is written, nor of the steps inside it. -/
inductive Blank : Report → Prop
  | intro {q : Report} :
      q.progress = .notStarted → q.error = none → q.given = ∅ → q.raw = none → q.fields = ∅ →
      q.outcome = none → q.used = ∅ → q.iterations = [] →
      (∀ b, ∀ p ∈ q.branch b, Blank p) → Blank q

mutual

/-- A report has the shape of a step.  It repeats what is written in the step; it shows nothing in a
    branch other than the one that a choice has on record; and it has the shape of the body in each
    iteration, which is one of those on record. -/
inductive Mirrors (store : Store) : ScopeId → Step → Report → Prop
  | intro {scope : ScopeId} {s : Step} {q : Report} :
      q.Repeats s →
      (∀ b, (store.scope scope).outcomeOf? s ≠ some b → ∀ p ∈ q.branch b, p.Blank) →
      (∀ b, MirrorsAll store scope (s.branch b) (q.branch b)) →
      (∀ p ∈ q.iterations, ∃ i, ((store.scope scope).iterationsOf s).get? p.index = some i ∧
        p.value = i.value ∧ p.error = (store.scope i.scope).error) →
      (∀ p ∈ q.iterations, ∀ i, ((store.scope scope).iterationsOf s).get? p.index = some i →
        MirrorsAll store i.scope s.body p.body) →
      Mirrors store scope s q

/-- One report for each step, in their order. -/
inductive MirrorsAll (store : Store) : ScopeId → List Step → List Report → Prop
  | nil {scope : ScopeId} : MirrorsAll store scope [] []
  | cons {scope : ScopeId} {s : Step} {q : Report} {steps : List Step} {reports : List Report} :
      Mirrors store scope s q → MirrorsAll store scope steps reports →
      MirrorsAll store scope (s :: steps) (q :: reports)

end

/-- A step that has not run is shown without any note. -/
theorem blank_untouched (s : Step) : (untouched s).Blank := by
  induction s using Step.inside with
  | parts s hbranch _ =>
    have hinner : ∀ b, ∀ p ∈ (untouched s).branch b, p.Blank := by
      intro b p hp
      rw [branch_untouched, untouchedAll_eq_map] at hp
      obtain ⟨inner, hmem, rfl⟩ := List.mem_map.1 hp
      exact hbranch b inner hmem
    cases s
    exact .intro rfl rfl rfl rfl rfl rfl rfl rfl hinner

/-- A list is mirrored step by step. -/
theorem MirrorsAll.map {f : Step → Report} {steps : List Step}
    (h : ∀ s ∈ steps, Mirrors store scope s (f s)) :
    MirrorsAll store scope steps (steps.map f) := by
  induction steps with
  | nil => exact .nil
  | cons s rest ih =>
    exact .cons (h s List.mem_cons_self) (ih fun p hp => h p (List.mem_cons_of_mem _ hp))

/-- An untouched step is mirrored, for any store and scope. -/
theorem mirrors_untouched (store : Store) (scope : ScopeId) (s : Step) :
    Mirrors store scope s (untouched s) := by
  induction s using Step.inside with
  | parts s hbranch _ =>
    have hno : ∀ p, p ∉ (untouched s).iterations := by
      rw [(bare_untouched s).iterations]
      exact fun p => List.not_mem_nil
    refine .intro (repeats_untouched s) (fun b _ p hp => ?_) (fun b => ?_)
      (fun p hp => absurd hp (hno p)) fun p hp => absurd hp (hno p)
    · obtain ⟨_, _, _, _, _, _, _, _, hblank⟩ := blank_untouched s
      exact hblank b p hp
    · rw [branch_untouched, untouchedAll_eq_map]
      exact .map (hbranch b)

/-- **Shapes.** The report of a step has its shape, whatever the scopes hold. -/
theorem mirrors_annotateStep (store : Store) (scope : ScopeId) (s : Step) :
    Mirrors store scope s (annotateStep store scope s) := by
  induction s using Step.inside generalizing scope with
  | parts s hbranch hbody =>
    refine .intro repeats_annotateStep (fun b hother => ?_) (fun b => ?_) ?_ ?_
    · rw [branch_annotateStep, drawnBranch, if_neg hother, untouchedAll_eq_map]
      intro p hp
      obtain ⟨inner, -, rfl⟩ := List.mem_map.1 hp
      exact blank_untouched inner
    · rw [branch_annotateStep, drawnBranch]
      split
      · rw [annotate_eq_map]
        exact .map fun p hp => hbranch b p hp scope
      · rw [untouchedAll_eq_map]
        exact .map fun p _ => mirrors_untouched store scope p
    · rw [iterations_annotateStep]
      intro p hp
      obtain ⟨e, he, rfl⟩ := List.mem_map.1 hp
      exact ⟨e.2, Dict.mem_entries.1 he, rfl, rfl⟩
    · rw [iterations_annotateStep]
      intro p hp i hi
      obtain ⟨e, he, rfl⟩ := List.mem_map.1 hp
      cases (Dict.mem_entries.1 he).symm.trans hi
      rw [pass, annotate_eq_map]
      exact .map fun p hp => hbody p hp e.2.scope

/-! ### What reports depend on -/

/-- Two scopes agree on a step: they have the same record of it, the scopes of its iterations have
    errors that are related by `E`, and so it is for the steps in the branch on record and, in the
    scopes of the iterations, for the steps of its body. -/
inductive Agree (E : Option String → Option String → Prop) (store store' : Store) :
    ScopeId → ScopeId → Step → Prop
  | intro {scope scope' : ScopeId} {s : Step} :
      ((store.scope scope).recordFor? s).map Record.apart =
        ((store'.scope scope').recordFor? s).map Record.apart →
      ((store.scope scope).iterationsOf s).entries.map (fun e => (e.1, e.2.value)) =
        ((store'.scope scope').iterationsOf s).entries.map (fun e => (e.1, e.2.value)) →
      (∀ e ∈ ((store.scope scope).iterationsOf s).entries.zip
          ((store'.scope scope').iterationsOf s).entries,
        E (store.scope e.1.2.scope).error (store'.scope e.2.2.scope).error) →
      (∀ b, (store.scope scope).outcomeOf? s = some b →
        ∀ p ∈ s.branch b, Agree E store store' scope scope' p) →
      (∀ e ∈ ((store.scope scope).iterationsOf s).entries.zip
          ((store'.scope scope').iterationsOf s).entries,
        ∀ p ∈ s.body, Agree E store store' e.1.2.scope e.2.2.scope p) →
      Agree E store store' scope scope' s

/-- Two scopes agree on the steps of a document. -/
def AgreeAll (E : Option String → Option String → Prop) (store store' : Store)
    (scope scope' : ScopeId) (steps : List Step) : Prop :=
  ∀ s ∈ steps, Agree E store store' scope scope' s

/-- Lists are mapped to the same list if what stands at the same place is. -/
theorem map_eq_map_iff {α β γ : Type} {f : α → γ} {g : β → γ} {l : List α} {l' : List β} :
    l.map f = l'.map g ↔ l.length = l'.length ∧ ∀ e ∈ l.zip l', f e.1 = g e.2 := by
  rw [← List.forall₂_eq_eq_eq, List.forall₂_map_left_iff, List.forall₂_map_right_iff,
    List.forall₂_iff_zip]
  exact and_congr_right fun _ => ⟨fun h e he => h he, fun h _ _ he => h _ he⟩

/-- Reports of a document are equal if those of its steps are. -/
theorem annotate_eq_annotate_iff {steps : List Step} :
    annotate store scope steps = annotate store' scope' steps ↔
      ∀ s ∈ steps, annotateStep store scope s = annotateStep store' scope' s := by
  rw [annotate_eq_map, annotate_eq_map, List.map_inj_left]

/-- **Nothing else is looked up.** Scopes that agree on a step, and in the errors of the scopes of
    its iterations, have the same report of it. -/
theorem annotateStep_eq_of_agree (h : Agree (· = ·) store store' scope scope' s) :
    annotateStep store scope s = annotateStep store' scope' s := by
  induction h with
  | @intro scope scope' s hrecord hvalues herrors _ _ ihbranch ihbody =>
    have houtcome := Scope.outcomeOf?_eq_of_apart hrecord
    have hhead : head s ((store.scope scope).recordFor? s) =
        head s ((store'.scope scope').recordFor? s) := by
      rw [← head_apart, hrecord, head_apart]
    have hbranch : ∀ b, drawnBranch store scope s b = drawnBranch store' scope' s b := by
      intro b
      rw [drawnBranch, drawnBranch, ← houtcome]
      by_cases htaken : (store.scope scope).outcomeOf? s = some b
      · rw [if_pos htaken, if_pos htaken, annotate_eq_annotate_iff]
        exact ihbranch b htaken
      · rw [if_neg htaken, if_neg htaken]
    have hpasses : ((store.scope scope).iterationsOf s).entries.map (pass store s.body) =
        ((store'.scope scope').iterationsOf s).entries.map (pass store' s.body) := by
      obtain ⟨hlength, hsame⟩ := map_eq_map_iff.1 hvalues
      refine map_eq_map_iff.2 ⟨hlength, fun e he => ?_⟩
      obtain ⟨hindex, hvalue⟩ := Prod.mk.inj (hsame e he)
      rw [pass, pass, hindex, hvalue, herrors e he, annotate_eq_annotate_iff.2 (ihbody e he)]
    rw [annotateStep_eq_head, annotateStep_eq_head, hhead, hbranch, hbranch, hpasses]

/-- **All of it is shown.** Where two scopes agree on a step, the same report of it shows that the
    scopes of its iterations have the same errors. -/
theorem agree_of_annotateStep_eq {E : Option String → Option String → Prop}
    (h : Agree E store store' scope scope' s)
    (heq : annotateStep store scope s = annotateStep store' scope' s) :
    Agree (· = ·) store store' scope scope' s := by
  induction h with
  | @intro scope scope' s hrecord hvalues _ _ _ ihbranch ihbody =>
    have houtcome := Scope.outcomeOf?_eq_of_apart hrecord
    have hpass : ∀ e ∈ ((store.scope scope).iterationsOf s).entries.zip
        ((store'.scope scope').iterationsOf s).entries,
        (store.scope e.1.2.scope).error = (store'.scope e.2.2.scope).error ∧
          annotate store e.1.2.scope s.body = annotate store' e.2.2.scope s.body := by
      have hiterations := congrArg iterations heq
      rw [iterations_annotateStep, iterations_annotateStep] at hiterations
      intro e he
      obtain ⟨-, -, herror, hbody⟩ := Pass.mk.inj ((map_eq_map_iff.1 hiterations).2 e he)
      exact ⟨herror, hbody⟩
    refine .intro hrecord hvalues (fun e he => (hpass e he).1) (fun b htaken p hp => ?_)
      fun e he p hp => ?_
    · have hbranch := congrArg (branch · b) heq
      rw [branch_annotateStep, branch_annotateStep, drawnBranch, drawnBranch, ← houtcome,
        if_pos htaken, if_pos htaken, annotate_eq_annotate_iff] at hbranch
      exact ihbranch b htaken p hp (hbranch p hp)
    · exact ihbody e he p hp (annotate_eq_annotate_iff.1 (hpass e he).2 p hp)

/-- A store agrees with any other one whose scopes have the same records. -/
theorem agreeAll_of_recordFor
    (h : ∀ t s, (store.scope t).recordFor? s = (store'.scope t).recordFor? s) (steps : List Step)
    (scope : ScopeId) : AgreeAll (fun _ _ => True) store store' scope scope steps := by
  suffices hstep : ∀ s scope, Agree (fun _ _ => True) store store' scope scope s from
    fun s _ => hstep s scope
  intro s
  induction s using Step.inside with
  | parts s hbranch hbody =>
    intro scope
    have hiterations :
        (store.scope scope).iterationsOf s = (store'.scope scope).iterationsOf s := by
      rw [Scope.iterationsOf, h, Scope.iterationsOf]
    refine .intro (by rw [h]) (by rw [hiterations]) (fun _ _ => trivial)
      (fun b _ p hp => hbranch b p hp scope) fun e he p hp => ?_
    rw [hiterations] at he
    have hsame : e.1 = e.2 := ((map_eq_map_iff (f := fun a => a) (g := fun a => a)).1 rfl).2 e he
    rw [hsame]
    exact hbody p hp _

/-- What a report shows of the steps of a document and of a scope. -/
structure Reflects (store : Store) (scope : ScopeId) (steps : List Step) (reports : List Report) :
    Prop where
  /-- There is one report for each step, and it has the shape of the step. -/
  mirrors : MirrorsAll store scope steps reports
  /-- A scope, of any store, that agrees on the records has the same report exactly if the scopes of
      the iterations that are shown have the same errors too. -/
  determined : ∀ store' scope', AgreeAll (fun _ _ => True) store store' scope scope' steps →
    (reports = annotate store' scope' steps ↔ AgreeAll (· = ·) store store' scope scope' steps)

/-- **Reports.** For every document, and for every content of the scopes that it is reported from;
    the scope of an iteration may be any scope, also one that leads back to itself. -/
theorem reflects_annotate (store : Store) (scope : ScopeId) (steps : List Step) :
    Reflects store scope steps (annotate store scope steps) := by
  constructor
  case mirrors =>
    rw [annotate_eq_map]
    exact .map fun s _ => mirrors_annotateStep store scope s
  case determined =>
    intro store' scope' hagree
    rw [annotate_eq_annotate_iff]
    constructor
    · exact fun heq s hs => agree_of_annotateStep_eq (hagree s hs) (heq s hs)
    · exact fun h s hs => annotateStep_eq_of_agree (h s hs)

/-! ### Errors of iterations -/

/-- A loop over one step. -/
def oneLoop : List Step :=
  [{ Step.forEach "$xs" with id := some "l", body := [{ Step.execute "u" with id := some "a" }] }]

/-- The loop has one iteration, which runs in the scope `child`. -/
def oneIteration (child : ScopeId) : Store :=
  (((Store.empty.openRoot ∅).2.openIn 0).2.apply 0 (.startLoop "l" false)).apply 0
    (.startIteration "l" 1 (.scalar "x") child)

/-- An iteration in the scope of its loop: the report goes as deep as the document. -/
example : (annotate (oneIteration 0) 0 oneLoop).map
    (fun q => q.iterations.map fun p => p.body.map Report.progress) = [[[.notStarted]]] := by decide

/-- The error of an iteration's scope is shown and is not on record of any node. -/
theorem annotate_closeWithError :
    AgreeAll (fun _ _ => True) (oneIteration 1) ((oneIteration 1).apply 1 (.closeWithError "e")) 0 0
        oneLoop ∧
      annotate (oneIteration 1) 0 oneLoop ≠
        annotate ((oneIteration 1).apply 1 (.closeWithError "e")) 0 oneLoop := by
  refine ⟨agreeAll_of_recordFor (fun t s => ?_) oneLoop 0, fun h => ?_⟩
  · rw [Store.scope_apply (by decide)]
    by_cases ht : 1 = t
    · rw [if_pos ht]
      rfl
    · rw [if_neg ht]
  · have herrors := congrArg (List.map fun q => q.iterations.map Pass.error) h
    exact absurd herrors (by decide)

end Report

end Runbook
