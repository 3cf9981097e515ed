import Mathlib.Data.List.Induction
import Runbook.Proofs.Graph.Arena
import Runbook.Proofs.Run.Sessions
import Runbook.Proofs.Run.Tree

namespace Runbook

/-!
# Running a graph — where values come from

A value that reaches an action has been given from outside, as a value of the alert or by an export
of others, or it was put out by an action that had succeeded before.  Nothing else flows through the
scopes of a run.

* `Given`, `Sourced` — the values that come from outside, and all values that there may be;
* `Scope.Sourced` — a scope that knows no other values, and what a change adds to it;
* `Occurrence.Traced` — the rule for each thing that happens, by what has happened before;
* `Machine.Traced` — a machine on whose course everything follows its rule, so that whatever is
  looked up is sourced (`Machine.Traced.lookup`);
* `Exec.traced` — executions keep to the rules;
* `fedAll_session` — the inputs of all calls of a session.
-/

/-! ### Values and their sources -/

/-- The values that others export. -/
def Effect.planned : Effect → List (Dict String Value)
  | publish values => [values]
  | cancel => []

/-- All that others export by some events. -/
def plannedBy (events : List Event) : List (Dict String Value) :=
  events.flatMap fun e => e.effect.planned

/-- All that others export before, between and during the starts among some deeds. -/
def Deed.planned : Deed → List (Dict String Value)
  | start events => plannedBy events
  | outside effect => effect.planned

section

variable (seed : Dict String Value) (outside : List (Dict String Value)) (earlier : List Occurrence)

/-- A value is given from outside: it is a value of the alert, or others have exported it. -/
inductive Given : Value → Prop
  | seed {key : String} {v : Value} : seed.get? key = some v → Given v
  | published {values : Dict String Value} {name : String} {v : Value} :
      values ∈ outside → .published [0] values ∈ earlier → values.get? name = some v → Given v

/-- A value has a source: it is given from outside or an element of a list that is, or a call that
    has succeeded put it out. -/
inductive Sourced : Value → Prop
  | given {v : Value} : Given seed outside earlier v → Sourced v
  | element {items : List String} {item : String} :
      Given seed outside earlier (.list items) → item ∈ items → Sourced (.scalar item)
  | payload {s : ScopeId} {id : String} {c : ActionCall} {result : ActionResult} :
      .called s id c (.ok result) ∈ earlier → Sourced (.scalar result.raw)
  | output {s : ScopeId} {id : String} {c : ActionCall} {result : ActionResult}
      {field text : String} :
      .called s id c (.ok result) ∈ earlier → result.fields.get? field = some text →
      Sourced (.scalar text)

/-- A parameter is given as it was declared, or as the text of a value that has a source if what was
    declared is a reference. -/
def Fills (token text : String) : Prop :=
  if Reference.needsLookup token then ∃ v, Sourced seed outside earlier v ∧ text = v.text
  else text = token

/-- A call is one that an action among `all` declares, with its own parameters filled in. -/
def Fed (all : List Node) (id : String) (c : ActionCall) : Prop :=
  ∃ params exports, .action id c.urn params exports ∈ all ∧ c.inputs.keys = params.keys ∧
    ∀ name text, c.inputs.get? name = some text →
      ∃ token, params.get? name = some token ∧ Fills seed outside earlier token text

end

variable {seed : Dict String Value} {outside : List (Dict String Value)}
  {earlier later : List Occurrence} {all : List Node}

/-- A value that was given earlier was given before all that happens later. -/
theorem Given.mono {v : Value} (h : Given seed outside earlier v) (hsub : earlier ⊆ later) :
    Given seed outside later v := by
  cases h with
  | seed hv => exact .seed hv
  | published houtside hpublished hv => exact .published houtside (hsub hpublished) hv

/-- `Given.mono` for the parts that a value was expanded from. -/
theorem Sourced.mono {v : Value} (h : Sourced seed outside earlier v) (hsub : earlier ⊆ later) :
    Sourced seed outside later v := by
  cases h with
  | given hv => exact .given (hv.mono hsub)
  | element hitems hitem => exact .element (hitems.mono hsub) hitem
  | payload hcalled => exact .payload (hsub hcalled)
  | output hcalled htext => exact .output (hsub hcalled) htext

/-- The elements of a value that has a source have one as well. -/
theorem Sourced.expand {v : Value} (h : Sourced seed outside earlier v) :
    ∀ item ∈ v.expand, Sourced seed outside earlier item := by
  intro item hitem
  cases v with
  | scalar text =>
    rw [List.mem_singleton.1 hitem]
    exact h
  | list items =>
    obtain ⟨text, htext, rfl⟩ := List.mem_map.1 hitem
    cases h with
    | given hv => exact .element hv htext

/-! ### Values in scopes -/

/-- Whatever a scope knows has a source. -/
structure Scope.Sourced (seed : Dict String Value) (outside : List (Dict String Value))
    (earlier : List Occurrence) (s : Scope) : Prop where
  alert : ∀ key v, s.seed.get? key = some v → Runbook.Sourced seed outside earlier v
  exports : ∀ name v, s.exported.get? name = some v → Runbook.Sourced seed outside earlier v
  results : ∀ id r result, s.actions.get? id = some r → r.result = some result →
    ∃ t node c, .called t node c (.ok result) ∈ earlier

namespace Scope.Sourced

variable {s : Scope}

/-- A scope stays sourced as more happens. -/
theorem mono (h : s.Sourced seed outside earlier) (hsub : earlier ⊆ later) :
    s.Sourced seed outside later where
  alert key v hv := (h.alert key v hv).mono hsub
  exports name v hv := (h.exports name v hv).mono hsub
  results id r result hr hresult := by
    obtain ⟨t, node, c, hcalled⟩ := h.results id r result hr hresult
    exact ⟨t, node, c, hsub hcalled⟩

/-- What is looked up in a scope has a source. -/
theorem lookup (h : s.Sourced seed outside earlier) {token : String} {v : Value}
    (hv : s.lookup token = some v) : Runbook.Sourced seed outside earlier v := by
  obtain ⟨reference, -, hresolve⟩ := Option.bind_eq_some_iff.1 hv
  have hresult : ∀ {id : String} {result : ActionResult}, s.resultOf? id = some result →
      ∃ t node c, .called t node c (.ok result) ∈ earlier := by
    intro id result hresult
    obtain ⟨r, hr, hresult⟩ := Option.bind_eq_some_iff.1 hresult
    exact h.results id r result (Option.filter_eq_some_iff.1 hr).1 hresult
  cases reference with
  | alert key => exact h.alert key v hresolve
  | exported name => exact h.exports name v hresolve
  | output node field =>
    cases field with
    | raw =>
      obtain ⟨result, hr, rfl⟩ := Option.map_eq_some_iff.1 hresolve
      obtain ⟨t, node, c, hcalled⟩ := hresult hr
      exact .payload hcalled
    | named field =>
      obtain ⟨text, htext, rfl⟩ := Option.map_eq_some_iff.1 hresolve
      obtain ⟨result, hr, htext⟩ := Option.bind_eq_some_iff.1 htext
      obtain ⟨t, node, c, hcalled⟩ := hresult hr
      exact .output hcalled htext

/-- Exporting values that have a source. -/
theorem addExports (h : s.Sourced seed outside earlier) {values : Dict String Value}
    (hvalues : ∀ name v, values.get? name = some v → Runbook.Sourced seed outside earlier v) :
    (s.addExports values).Sourced seed outside earlier where
  alert := h.alert
  exports name v hv := by
    rw [Scope.addExports, Dict.get?_extend, Option.or_eq_some_iff] at hv
    exact hv.elim (hvalues name v) fun hv => h.exports name v hv.2
  results := h.results

/-- A change of the record of an action keeps the sources if so it does of a single record. -/
theorem updateAction (h : s.Sourced seed outside earlier) {id : String}
    {f : ActionRecord → ActionRecord}
    (hf : ∀ r result, (f r).result = some result → r.result = some result ∨
      ∃ t node c, .called t node c (.ok result) ∈ earlier) :
    (s.updateAction id f).Sourced seed outside earlier where
  alert := h.alert
  exports := h.exports
  results id' r result hr hresult := by
    rw [Scope.updateAction, Dict.get?_update] at hr
    by_cases hid : id' = id
    · rw [if_pos hid, Option.some.injEq] at hr
      subst hr
      refine (hf _ result hresult).elim (fun hold => ?_) fun hcalled => hcalled
      cases hold' : s.actions.get? id with
      | none =>
        rw [hold'] at hold
        cases hold
      | some r =>
        rw [hold'] at hold
        exact h.results id r result hold' hold
    · rw [if_neg hid] at hr
      exact h.results id' r result hr hresult

end Scope.Sourced

/-! ### What may happen -/

/-- A change brings only values that have a source into a scope. -/
def Change.Traced (seed : Dict String Value) (outside : List (Dict String Value))
    (earlier : List Occurrence) : Change → Prop
  | completeAction _ result exports =>
    (∃ s id c, .called s id c (.ok result) ∈ earlier) ∧
      ∀ name v, exports.get? name = some v → Sourced seed outside earlier v
  | publish values => ∀ name v, values.get? name = some v → Sourced seed outside earlier v
  | _ => True

/-- What happens after `earlier` brings only values that have a source into scopes and into calls.
    What others export comes from outside. -/
def Occurrence.Traced (seed : Dict String Value) (outside : List (Dict String Value))
    (all : List Node) (earlier : List Occurrence) : Occurrence → Prop
  | changed _ c => c.Traced seed outside earlier
  | published scopes values =>
    (∀ name v, values.get? name = some v → Sourced seed outside earlier v) ∨
      (scopes = [0] ∧ values ∈ outside)
  | called _ id c _ => Fed seed outside earlier all id c
  | _ => True

/-- Everything on a course keeps to its rule. -/
def TracedAll (seed : Dict String Value) (outside : List (Dict String Value)) (all : List Node)
    (course : List Occurrence) : Prop :=
  ∀ earlier o later, course = earlier ++ o :: later → o.Traced seed outside all earlier

namespace Scope.Sourced

variable {s : Scope}

/-- A change that writes values with a source keeps all values of a scope sourced. -/
theorem apply (h : s.Sourced seed outside earlier) {c : Change}
    (hc : c.Traced seed outside earlier) : (s.apply c).Sourced seed outside earlier := by
  suffices hchange : (s.change c).Sourced seed outside earlier from
    ⟨hchange.alert, hchange.exports, hchange.results⟩
  cases c with
  | startAction id =>
    exact h.updateAction (f := fun _ => { waiting := true }) fun r result hresult => by
      cases hresult
  | recordParams | failAction => exact h.updateAction fun r result hresult => .inl hresult
  | completeAction id result exports =>
    refine (h.updateAction fun r result' hresult => ?_).addExports hc.2
    rw [← Option.some.inj hresult]
    exact .inr hc.1
  | publish values => exact h.addExports hc
  | finishLoop id =>
    obtain ⟨loops, hloops⟩ := s.change_finishLoop id
    rw [hloops]
    exact ⟨h.alert, h.exports, h.results⟩
  | _ => exact ⟨h.alert, h.exports, h.results⟩

/-- `apply` for several changes. -/
theorem foldl_apply {changes : List Change} (h : s.Sourced seed outside earlier)
    (hchanges : ∀ c ∈ changes, c.Traced seed outside earlier) :
    (changes.foldl Scope.apply s).Sourced seed outside earlier := by
  induction changes generalizing s with
  | nil => exact h
  | cons c rest ih =>
    exact ih (h.apply (hchanges c List.mem_cons_self)) fun c' hc' =>
      hchanges c' (List.mem_cons_of_mem _ hc')

end Scope.Sourced

/-- A scope starts with alert data, or with nothing. -/
theorem sourced_initial (seed : Dict String Value) (outside : List (Dict String Value))
    (s : ScopeId) :
    (Scope.initial seed s).Sourced seed outside [] := by
  have hempty : Scope.Sourced seed outside [] {} :=
    { alert := fun _ _ hv => by cases hv
      exports := fun _ _ hv => by cases hv
      results := fun _ _ _ hr => by cases hr }
  unfold Scope.initial
  by_cases hs : s = 0
  · rw [if_pos hs]
    exact ⟨fun _ _ hv => .given (.seed hv), hempty.exports, hempty.results⟩
  · rw [if_neg hs]
    exact hempty

namespace TracedAll

variable {course : List Occurrence}

/-- What was traced up to the last occurrence, and the last one itself. -/
theorem init {o : Occurrence} (h : TracedAll seed outside all (course ++ [o])) :
    TracedAll seed outside all course ∧ o.Traced seed outside all course :=
  ⟨fun earlier o' later heq => h earlier o' (later ++ [o]) (by rw [heq]; simp), h course o [] rfl⟩

/-- One more occurrence that is traced. -/
theorem concat (h : TracedAll seed outside all course) {o : Occurrence}
    (ho : o.Traced seed outside all course) : TracedAll seed outside all (course ++ [o]) := by
  intro earlier o' later heq
  rcases List.eq_nil_or_concat later with rfl | ⟨later, o'', rfl⟩
  · obtain ⟨rfl, hlast⟩ := List.append_inj' heq rfl
    rwa [← List.singleton_inj.1 hlast]
  · refine h earlier o' later ?_
    rw [List.concat_eq_append, ← List.cons_append, ← List.append_assoc] at heq
    exact (List.append_inj' heq rfl).1

/-- The changes that something makes bring values with a source. -/
theorem changesOf {o : Occurrence} (h : o.Traced seed outside all course) (s : ScopeId) :
    ∀ c ∈ o.changesOf s, c.Traced seed outside (course ++ [o]) := by
  intro c hc
  have hsub : course ⊆ course ++ [o] := List.subset_append_left _ _
  cases o with
  | changed t c' =>
    by_cases ht : t = s
    · rw [Occurrence.changesOf, if_pos ht, List.mem_singleton] at hc
      subst hc
      cases c with
      | completeAction =>
        obtain ⟨⟨t, id, call, hcalled⟩, hexports⟩ := h
        exact ⟨⟨t, id, call, hsub hcalled⟩, fun name v hv => (hexports name v hv).mono hsub⟩
      | publish => exact fun name v hv => (h name v hv).mono hsub
      | _ => trivial
    · rw [Occurrence.changesOf, if_neg ht] at hc
      exact absurd hc List.not_mem_nil
  | published scopes values =>
    rw [(List.mem_replicate.1 hc).2]
    intro name v hv
    rcases h with h | ⟨rfl, houtside⟩
    · exact (h name v hv).mono hsub
    · -- From now on these values have been exported by others.
      exact .given (.published houtside (by simp) hv)
  | _ => exact absurd hc List.not_mem_nil

/-- **Scopes.** If everything that happened kept to its rule, scopes know values with a source
    only. -/
theorem told (h : TracedAll seed outside all course) (s : ScopeId) :
    (Scope.told seed course s).Sourced seed outside course := by
  induction course using List.reverseRecOn with
  | nil => exact sourced_initial seed outside s
  | append_singleton course o ih =>
    obtain ⟨hcourse, ho⟩ := h.init
    rw [Scope.told_append, List.flatMap_singleton]
    exact ((ih hcourse).mono (List.subset_append_left _ _)).foldl_apply (changesOf ho s)

end TracedAll

/-! ### Machines -/

/-- Everything on the course of a machine has kept to its rule, and so do the events to come. -/
structure Machine.Traced (backend : Backend) (seed : Dict String Value)
    (outside : List (Dict String Value)) (all : List Node) (m : Machine) : Prop where
  sound : m.Sound backend seed
  schedule : plannedBy m.schedule ⊆ outside
  course : TracedAll seed outside all m.course

namespace Machine.Traced

variable {backend : Backend} {m m' : Machine}

/-- What a token stands for has a source. -/
theorem lookup (h : m.Traced backend seed outside all) {stack : Stack} {token : String} {v : Value}
    (hv : stack.lookup m.store token = some v) : Sourced seed outside m.course v := by
  obtain ⟨s, -, hv⟩ := List.exists_of_findSome?_eq_some hv
  rw [h.sound.told] at hv
  exact (h.course.told s).lookup hv

/-- A step puts one occurrence on the course, and it must be traced. -/
theorem step (h : m.Traced backend seed outside all) {o : Occurrence}
    (hext : Extends backend m [o] m') (hschedule : m'.schedule = m.schedule)
    (ho : o.Traced seed outside all m.course) : m'.Traced backend seed outside all where
  sound := hext.sound seed h.sound
  schedule := hschedule ▸ h.schedule
  course := hext.course ▸ h.course.concat ho

/-- A change that is traced, by `step`. -/
theorem change (h : m.Traced backend seed outside all) {s : ScopeId} (hs : s < m.store.size)
    {c : Change} (hc : c.Traced seed outside m.course) :
    (m.change s c).Traced backend seed outside all :=
  h.step (.change hs c) rfl hc

/-- Events may be planned anew, if they publish what comes from outside. -/
theorem reschedule (h : m.Traced backend seed outside all) {rest : List Event}
    (hrest : plannedBy rest ⊆ outside) :
    ({ m with schedule := rest } : Machine).Traced backend seed outside all :=
  ⟨h.sound.reschedule rest, hrest, h.course⟩

/-- Time passes, and some events are not planned any longer. -/
theorem elapse (h : m.Traced backend seed outside all) (limit : Nat) {rest : List Event}
    (hrest : plannedBy rest ⊆ outside) : (m.elapse limit rest).Traced backend seed outside all :=
  ⟨h.sound.elapse limit rest, hrest, h.course⟩

/-- Values that are published must have a source, or come from outside. -/
theorem publish (h : m.Traced backend seed outside all) {stack : Stack} (hs : m.Holds stack)
    {values : Dict String Value}
    (hvalues : (Occurrence.published stack.scopes values).Traced seed outside all m.course) :
    (m.publish stack values).Traced backend seed outside all := by
  have hext : Extends backend m _ (m.publish stack values) := .publish hs values
  unfold Occurrence.publication at hext
  by_cases hempty : values.isEmpty
  · rw [Machine.publish, if_pos hempty]
    exact h
  · rw [if_neg hempty] at hext
    exact h.step hext (by rw [Machine.publish, if_neg hempty]) hvalues

/-- What others do keeps to the rules. -/
theorem perform (h : m.Traced backend seed outside all) (hroot : m.root < m.store.size)
    {e : Effect} (he : e.planned ⊆ outside) :
    (m.perform e).Traced backend seed outside all := by
  cases e with
  | publish values =>
    have hholds : m.Holds (.of m.root) := fun s hs => by
      rw [List.mem_singleton.1 hs]
      exact hroot
    exact h.publish hholds (.inr ⟨by rw [h.sound.root]; rfl, he List.mem_cons_self⟩)
  | cancel => exact h.step (.cancel m) rfl trivial

/-- **Calls.** Events that happen in a call keep to the rules. -/
theorem performDuring (site : Site) {rest : List Event} (hrest : plannedBy rest ⊆ outside) :
    ∀ {m : Machine}, m.Traced backend seed outside all → m.root < m.store.size →
      (Machine.performDuring site m rest).Traced backend seed outside all := by
  induction rest with
  | nil => exact fun h _ => h.reschedule hrest
  | cons e rest ih =>
    intro m h hroot
    unfold Machine.performDuring
    by_cases hfits : e.trigger.fitsCall site
    · rw [if_pos hfits]
      obtain ⟨hfirst, hlater⟩ := List.append_subset.1 hrest
      have hext := Machine.extends_happens backend hroot e.effect
      exact ih hlater (h.perform hroot hfirst)
        (hext.root ▸ Nat.lt_of_lt_of_le hroot hext.size_le)
    · rw [if_neg hfits]
      exact h.reschedule hrest

/-- A wait that is settled with a value has looked it up. -/
theorem lookup_of_settled? {stack : Stack} {token : String} {v : Value}
    (h : m.settled? stack token = some (.ok v)) : stack.lookup m.store token = some v := by
  unfold settled? at h
  by_cases hc : stack.isCancelled m.store
  · rw [if_pos hc] at h
    cases h
  · rw [if_neg hc] at h
    obtain ⟨v', hv', heq⟩ := Option.map_eq_some_iff.1 h
    rw [hv', Except.ok.inj heq]

/-- **Waiting.** Events keep to the rules, and what has been waited for has a source. -/
theorem awaitDuring (stack : Stack) (site : Site) (limit : Nat) (token : String)
    {rest : List Event} (hrest : plannedBy rest ⊆ outside) : ∀ {m : Machine},
    m.Traced backend seed outside all → m.root < m.store.size →
      (Machine.awaitDuring stack site limit token m rest).2.Traced backend seed outside all ∧
        ∀ v, (Machine.awaitDuring stack site limit token m rest).1 = .ok v →
          Sourced seed outside (Machine.awaitDuring stack site limit token m rest).2.course v := by
  -- A wait that is settled at once answers what is looked up now.
  have hnow : ∀ {m : Machine} {answer : Except WaitError Value}, m.Traced backend seed outside all →
      m.settled? stack token = some answer → ∀ v, answer = .ok v →
        Sourced seed outside m.course v :=
    fun h hanswer v hv => h.lookup (lookup_of_settled? (hv ▸ hanswer))
  induction rest with
  | nil =>
    intro m h _
    unfold Machine.awaitDuring
    cases hanswer : m.settled? stack token with
    | some answer => exact ⟨h.reschedule hrest, fun v hv => hnow h hanswer v hv⟩
    | none => exact ⟨h.elapse limit hrest, fun v hv => by cases hv⟩
  | cons e rest ih =>
    intro m h hroot
    unfold Machine.awaitDuring
    cases hanswer : m.settled? stack token with
    | some answer => exact ⟨h.reschedule hrest, fun v hv => hnow h hanswer v hv⟩
    | none =>
      dsimp only
      by_cases hfits : e.trigger.fits site
      · rw [if_pos hfits]
        have hwait := h.step (.recordWait m stack.top site token) rfl trivial
        -- The event is planned, so what it publishes comes from outside.
        obtain ⟨hfirst, hlater⟩ := List.append_subset.1 hrest
        have hdone := hwait.perform hroot hfirst
        obtain ⟨_, hext, -⟩ := Machine.extends_perform backend
          (m := m.recordWait stack.top site token) hroot e.effect
        exact ih hlater hdone (hext.root ▸ Nat.lt_of_lt_of_le hroot hext.size_le)
      · rw [if_neg hfits]
        exact ⟨h.elapse limit hrest, fun v hv => by cases hv⟩

/-- Several waits in a row; every value that they answer has a source. -/
theorem awaitAll (stack : Stack) (site : Site) (limit : Nat) (tokens : List String) :
    ∀ {m : Machine}, m.Traced backend seed outside all → m.root < m.store.size →
      (m.awaitAll stack site limit tokens).2.Traced backend seed outside all ∧
        ∀ values, (m.awaitAll stack site limit tokens).1 = .ok values → ∀ v ∈ values,
          Sourced seed outside (m.awaitAll stack site limit tokens).2.course v := by
  induction tokens with
  | nil =>
    intro m h _
    refine ⟨h, fun values hvalues => ?_⟩
    obtain rfl := Except.ok.inj hvalues
    exact fun v hv => absurd hv List.not_mem_nil
  | cons token rest ih =>
    intro m h hroot
    obtain ⟨htraced, hv⟩ := awaitDuring stack site limit token h.schedule h hroot
    obtain ⟨_, hext, -⟩ :=
      Machine.extends_awaitDuring backend stack site limit token m.schedule m hroot
    unfold Machine.awaitAll await
    generalize Machine.awaitDuring stack site limit token m m.schedule = waited at *
    obtain ⟨answer, m₁⟩ := waited
    cases answer with
    | error e => exact ⟨htraced, fun values hvalues => by cases hvalues⟩
    | ok v =>
      have hroot₁ : m₁.root < m₁.store.size := hext.root ▸ Nat.lt_of_lt_of_le hroot hext.size_le
      obtain ⟨htraced', hlater⟩ := ih htraced hroot₁
      obtain ⟨_, hext', -⟩ := Machine.extends_awaitAll backend stack site limit rest m₁ hroot₁
      dsimp only at *
      generalize m₁.awaitAll stack site limit rest = ended at *
      obtain ⟨answer, m₂⟩ := ended
      refine ⟨htraced', fun values hvalues => ?_⟩
      cases answer with
      | error e => cases hvalues
      | ok later =>
        obtain rfl := Except.ok.inj hvalues
        intro v' hv'
        rcases List.mem_cons.1 hv' with rfl | hv'
        · -- The first value came earlier.
          exact (hv v' rfl).mono (hext'.course ▸ List.subset_append_left _ _)
        · exact hlater later rfl v' hv'

/-- A wait of a node, after a change of its scope. -/
theorem awaited {x : Execution} {frame : Frame} {c : Change} {id : String} {limit : Nat}
    {tokens : List String} {happened : List Occurrence} {answer : Except WaitError (List Value)}
    (h : m.Traced x.backend seed outside all) (hm : m.Ready frame)
    (hc : c.Traced seed outside m.course)
    (hw : Awaited frame id limit tokens (m.change frame.top c) happened answer m') :
    m'.Traced x.backend seed outside all ∧ m'.Ready frame ∧ ∀ values, answer = .ok values →
      values.length = tokens.length ∧ ∀ v ∈ values, Sourced seed outside m'.course v := by
  have hready := (hw.extends_after x.backend hm).ready hm
  have hchange : Extends x.backend m _ (m.change frame.top c) := .change hm.top c
  obtain ⟨htraced, hvalues⟩ := (h.change hm.top hc).awaitAll frame.stack ⟨id, frame.path⟩ limit
    tokens (hchange.ready hm).root
  rw [hw.eq] at htraced hvalues
  refine ⟨htraced, hready, fun values hanswer => ⟨?_, hvalues values hanswer⟩⟩
  subst hanswer
  exact hw.length_eq

end Machine.Traced

/-! ### Parameters and exports -/

/-- Declared parameters are filled in one by one. -/
theorem fills_fillIn {declared : List (String × String)} {values : List Value}
    (hlength : values.length = (referencesOf declared).length)
    (hvalues : ∀ v ∈ values, Sourced seed outside earlier v) :
    ∀ {name text : String}, (name, text) ∈ fillIn declared values →
      ∃ token, (name, token) ∈ declared ∧ Fills seed outside earlier token text := by
  induction declared generalizing values with
  | nil => exact fun hmem => absurd hmem List.not_mem_nil
  | cons b rest ih =>
    obtain ⟨name', token⟩ := b
    intro name text hmem
    rw [referencesOf, List.map_cons] at hlength
    unfold fillIn at hmem
    by_cases hlookup : Reference.needsLookup token
    · -- A reference takes the first of the values that are left.
      rw [if_pos hlookup] at hmem
      rw [List.filter_cons_of_pos hlookup] at hlength
      cases values with
      | nil => cases hlength
      | cons v later =>
        rcases List.mem_cons.1 hmem with heq | hmem
        · obtain ⟨rfl, rfl⟩ := Prod.mk.inj heq
          refine ⟨token, List.mem_cons_self, ?_⟩
          rw [Fills, if_pos hlookup]
          exact ⟨v, hvalues v List.mem_cons_self, rfl⟩
        · obtain ⟨token', hmem, hfills⟩ := ih (Nat.succ.inj hlength)
            (fun v' hv' => hvalues v' (List.mem_cons_of_mem _ hv')) hmem
          exact ⟨token', List.mem_cons_of_mem _ hmem, hfills⟩
    · -- A literal takes none.
      rw [if_neg hlookup] at hmem
      rw [List.filter_cons_of_neg hlookup] at hlength
      rcases List.mem_cons.1 hmem with heq | hmem
      · obtain ⟨rfl, rfl⟩ := Prod.mk.inj heq
        refine ⟨text, List.mem_cons_self, ?_⟩
        rw [Fills, if_neg hlookup]
      · obtain ⟨token', hmem, hfills⟩ := ih hlength hvalues hmem
        exact ⟨token', List.mem_cons_of_mem _ hmem, hfills⟩

/-- The inputs of an action are its declared parameters, filled in. -/
theorem fed_inputsOf {id urn : String} {params exports : Dict String String} {values : List Value}
    (hn : .action id urn params exports ∈ all)
    (hlength : values.length = (referencesOf params.entries).length)
    (hvalues : ∀ v ∈ values, Sourced seed outside earlier v) :
    Fed seed outside earlier all id ⟨urn, inputsOf params values⟩ := by
  refine ⟨params, exports, hn, keys_inputsOf params values, fun name text htext => ?_⟩
  rw [← Dict.mem_entries, entries_inputsOf] at htext
  obtain ⟨token, htoken, hfills⟩ := fills_fillIn hlength hvalues htext
  exact ⟨token, Dict.mem_entries.1 htoken, hfills⟩

/-- What an action exports was put out by its call. -/
theorem sourced_exportsOf {declared : Dict String String} {result : ActionResult} {s : ScopeId}
    {id : String} {c : ActionCall} (hcalled : .called s id c (.ok result) ∈ earlier)
    {name : String} {v : Value} (hv : (Run.exportsOf declared result).get? name = some v) :
    Sourced seed outside earlier v := by
  obtain ⟨b, -, hb⟩ := List.mem_filterMap.1 (Dict.mem_entries.2 hv)
  obtain ⟨v', hv', heq⟩ := Option.map_eq_some_iff.1 hb
  obtain ⟨-, rfl⟩ := Prod.mk.inj heq
  dsimp only at hv'
  by_cases hpayload : b.2 = Run.payloadName
  · rw [if_pos hpayload] at hv'
    rw [← Option.some.inj hv']
    exact .payload hcalled
  · rw [if_neg hpayload] at hv'
    obtain ⟨text, htext, rfl⟩ := Option.map_eq_some_iff.1 hv'
    exact .output hcalled htext


/-! ### Executions -/

/-- What a task needs to keep to the rules: its actions are among `all`, and the values that it
    goes through have a source. -/
def Task.Fits (seed : Dict String Value) (outside : List (Dict String Value)) (all : List Node)
    (course : List Occurrence) : Task → Prop
  | nodes list => Node.listing list ⊆ all
  | node n => n.subtree ⊆ all
  | rounds _ _ body _ values =>
    Node.listing body ⊆ all ∧ ∀ v ∈ values, Sourced seed outside course v
  | round _ _ body _ value => Node.listing body ⊆ all ∧ Sourced seed outside course value

variable {x : Execution} {frame : Frame} {m m' : Machine} {happened : List Occurrence}

/-- A call is fed with sourced inputs, and what is heard during it comes from outside. -/
theorem Called.traced {id : String} {c : ActionCall} {answer : Except ActionError ActionResult}
    {heard : List Occurrence} (h : Called x frame id c m answer heard m') (hm : m.Ready frame)
    (ht : m.Traced x.backend seed outside all) (hfed : Fed seed outside m.course all id c) :
    m'.Traced x.backend seed outside all := by
  have hcalled := ht.step (.call m frame.top id c) rfl hfed
  exact h.eq ▸ hcalled.performDuring ⟨id, frame.path⟩ ht.schedule hm.root

/-- A call with parameters that came is fed, whatever its answer, which is on the course then. -/
theorem Awaited.traced_call {id urn : String} {params exports : Dict String String} {limit : Nat}
    {values : List Value} {m₁ m₂ : Machine} {waited heard : List Occurrence}
    {answer : Except ActionError ActionResult} (hm : m.Ready frame)
    (hn : .action id urn params exports ∈ all) (ht : m.Traced x.backend seed outside all)
    (hw : Awaited frame id limit (referencesOf params.entries)
      (m.change frame.top (.startAction id)) waited (.ok values) m₁)
    (hcall : Called x frame id ⟨urn, inputsOf params values⟩
      (m₁.change frame.top (.recordParams id (inputsOf params values) true)) answer heard m₂) :
    m₂.Traced x.backend seed outside all ∧ m₂.Ready frame ∧
      .called frame.top id ⟨urn, inputsOf params values⟩ answer ∈ m₂.course := by
  obtain ⟨ht₁, hready, hvalues⟩ := ht.awaited hm (c := .startAction id) trivial hw
  obtain ⟨hlength, hsourced⟩ := hvalues values rfl
  have hparams : Extends x.backend m₁ _ _ :=
    .change hready.top (.recordParams id (inputsOf params values) true)
  have hready₁ := hparams.ready hready
  obtain ⟨hcalled, -⟩ := hcall.extends_effects hready₁.root
  refine ⟨hcall.traced hready₁ (ht₁.change hready.top trivial) ?_, hcalled.ready hready₁, ?_⟩
  · exact fed_inputsOf hn hlength fun v hv =>
      (hsourced v hv).mono (hparams.course ▸ List.subset_append_left _ _)
  · rw [hcalled.course]
    exact List.mem_append_right _ List.mem_cons_self

/-- The inputs of an action are waited for, so they are sourced; its exports come from its
    result. -/
theorem Acts.traced {id urn : String} {params exports : Dict String String} {outcome : Outcome}
    (h : Acts x frame id urn params exports m happened outcome m') (hm : m.Ready frame)
    (hn : .action id urn params exports ∈ all) (ht : m.Traced x.backend seed outside all) :
    m'.Traced x.backend seed outside all := by
  cases h with
  | starved hw =>
    obtain ⟨ht₁, hready, -⟩ := ht.awaited hm (c := .startAction id) trivial hw
    exact ht₁.change hready.top trivial
  | failed hw hcall =>
    obtain ⟨ht₁, hready, -⟩ := hw.traced_call hm hn ht hcall
    exact ht₁.change hready.top trivial
  | @done _ _ values _ m₂ result hw hcall =>
    obtain ⟨ht₁, hready, hmem⟩ := hw.traced_call hm hn ht hcall
    have hpublish : Extends x.backend m₂ _ _ := .publish hready.stack (Run.exportsOf exports result)
    have hexports : ∀ name v, (Run.exportsOf exports result).get? name = some v →
        Sourced seed outside m₂.course v := fun name v hv => sourced_exportsOf hmem hv
    have hsub : m₂.course ⊆ (m₂.publish frame.stack (Run.exportsOf exports result)).course :=
      hpublish.course ▸ List.subset_append_left _ _
    exact (ht₁.publish hready.stack (.inl hexports)).change (hpublish.ready hready).top
      ⟨⟨_, _, _, hsub hmem⟩, fun name v hv => (hexports name v hv).mono hsub⟩

/-- Deciding writes nothing that has to be traced. -/
theorem Decides.traced {id condition : String} {answer : Except Failure Bool}
    (h : Decides x frame id condition m happened answer m') (hm : m.Ready frame)
    (ht : m.Traced x.backend seed outside all) : m'.Traced x.backend seed outside all := by
  cases h with
  | malformed =>
    have hstart : Extends x.backend m _ _ := .change hm.top (.startChoice id)
    exact (ht.change hm.top (c := .startChoice id) trivial).change (hstart.ready hm).top trivial
  | starved _ hw | undecidable _ hw | decided _ hw =>
    obtain ⟨ht₁, hready, -⟩ := ht.awaited hm (c := .startChoice id) trivial hw
    exact ht₁.change hready.top trivial

/-- The item of an iteration is one of the values that the loop goes over. -/
theorem Machine.Traced.openIteration {backend : Backend} (h : m.Traced backend seed outside all)
    (hm : m.Ready frame) (id : String) (itemAs : Option String) (index : Nat) {value : Value}
    (hvalue : Sourced seed outside m.course value) :
    (m.openIteration frame id itemAs index value).Traced backend seed outside all := by
  have hpush : Extends backend m _ _ := .pushChild m frame.stack
  have htop := (hpush.ready hm).top
  have hstart : Extends backend _ _ _ :=
    .change htop (.startIteration id index value m.store.size)
  have ht := (h.step hpush rfl trivial).change htop
    (c := .startIteration id index value m.store.size) trivial
  unfold Machine.openIteration
  cases itemAs with
  | none => exact ht
  | some name =>
    refine ht.change ?_ fun name' v hv => ?_
    · rw [Machine.size_change, hpush.size]
      exact Nat.lt_succ_self _
    · -- The element is the only value that is exported to the new scope.
      rw [← Dict.mem_entries] at hv
      obtain ⟨-, rfl⟩ := Prod.mk.inj (List.mem_singleton.1 hv)
      exact hvalue.mono ((hpush.trans hstart).course ▸ List.subset_append_left _ _)

/-- **Executions.** They keep to the rules. -/
theorem Exec.traced {task : Task} {outcome : Outcome}
    (h : Exec x frame task m happened outcome m') (hm : m.Ready frame)
    (ht : m.Traced x.backend seed outside all) (hfits : task.Fits seed outside all m.course) :
    m'.Traced x.backend seed outside all := by
  induction h with
  | nil | stopped | noRounds => exact ht
  | failed _ _ ih => exact ih hm ht (List.Subset.trans (List.subset_append_left _ _) hfits)
  | cons _ h _ ih ih' =>
    exact ih' ((h.extends hm).ready hm)
      (ih hm ht (List.Subset.trans (List.subset_append_left _ _) hfits))
      (List.Subset.trans (List.subset_append_right _ _) hfits)
  | action h => exact h.traced hm (hfits List.mem_cons_self) ht
  | undecided h => exact h.traced hm ht
  | @decided _ _ _ yes no _ _ _ _ _ b _ h _ ih =>
    -- The branch is a part of the choice, so it fits as well.
    refine ih ((h.extends hm).ready hm) (h.traced hm ht) fun n hn => hfits ?_
    rw [Node.subtree]
    refine List.mem_cons_of_mem _ ?_
    cases b with
    | true => exact List.mem_append_left _ hn
    | false => exact List.mem_append_right _ hn
  | @starved _ id _ _ _ _ _ _ _ hw =>
    obtain ⟨ht₁, hready, -⟩ := ht.awaited hm (c := .startLoop id true) trivial hw
    exact ht₁.change hready.top trivial
  | @broken _ id _ _ _ _ _ _ _ _ v _ hw _ ih =>
    obtain ⟨ht₁, hready, hvalues⟩ := ht.awaited hm (c := .startLoop id true) trivial hw
    have hv := (hvalues _ rfl).2 v List.mem_cons_self
    -- The rounds are over the elements of a value that has a source.
    exact ih hready ht₁ ⟨List.Subset.trans (List.subset_cons_self _ _) hfits, hv.expand⟩
  | @finished _ id _ _ _ _ _ _ _ _ v hw h ih =>
    obtain ⟨ht₁, hready, hvalues⟩ := ht.awaited hm (c := .startLoop id true) trivial hw
    have hv := (hvalues _ rfl).2 v List.mem_cons_self
    exact (ih hready ht₁ ⟨List.Subset.trans (List.subset_cons_self _ _) hfits, hv.expand⟩).change
      ((h.extends hready).ready hready).top trivial
  | lastRound _ ih => exact ih hm ht ⟨hfits.1, hfits.2 _ List.mem_cons_self⟩
  | nextRound h _ ih ih' =>
    exact ih' ((h.extends hm).ready hm) (ih hm ht ⟨hfits.1, hfits.2 _ List.mem_cons_self⟩)
      ⟨hfits.1, fun v hv => (hfits.2 v (List.mem_cons_of_mem _ hv)).mono
        ((h.extends hm).course ▸ List.subset_append_left _ _)⟩
  | refused => exact ht.change hm.top trivial
  | completed _ h ih | passed _ h _ _ ih =>
    obtain ⟨-, hready⟩ := extends_openIteration x.backend hm _ _ _ _
    exact (ih hready (ht.openIteration hm _ _ _ hfits.2) hfits.1).change
      ((h.extends hready).ready hready).top trivial
  | halted _ h _ _ ih =>
    obtain ⟨hopen, hready⟩ := extends_openIteration x.backend hm _ _ _ _
    have hinner := ((h.extends hready).ready hready).top
    have hclose := ih hready (ht.openIteration hm _ _ _ hfits.2) hfits.1
    exact (hclose.change hinner (c := .closeWithError _) trivial).change
      (((hopen.trans (h.extends hready)).trans (.change hinner _)).ready hm).top trivial
  | interrupted _ h ih =>
    obtain ⟨hopen, hready⟩ := extends_openIteration x.backend hm _ _ _ _
    exact (ih hready (ht.openIteration hm _ _ _ hfits.2) hfits.1).change
      ((hopen.trans (h.extends hready)).ready hm).top trivial

/-! ### Sessions -/

/-- Every call on a course is fed from what happened before it. -/
def FedAll (seed : Dict String Value) (outside : List (Dict String Value)) (all : List Node)
    (course : List Occurrence) : Prop :=
  ∀ earlier s id c answer later, course = earlier ++ .called s id c answer :: later →
    Fed seed outside earlier all id c

/-- What a deed does is traced, be it a start or an event from outside. -/
theorem traced_undergo {x : Execution} {m : Machine} {d : Deed}
    (h : m.Traced x.backend seed outside (Node.listing x.graph.nodes))
    (hroot : m.root < m.store.size) (hd : d.planned ⊆ outside) :
    (x.undergo m d).Traced x.backend seed outside (Node.listing x.graph.nodes) := by
  cases d with
  | outside effect => exact h.perform hroot hd
  | start events =>
    obtain ⟨happened, hstarted⟩ := started_start x (m := { m with schedule := events }) hroot
    obtain ⟨m₁, hexec, hend⟩ := hstarted.exec
    have hrun := hexec.traced hstarted.ready (h.reschedule hd) fun _ hn => hn
    have htop := ((hexec.extends hstarted.ready).ready hstarted.ready).top
    rw [Execution.undergo, hend]
    refine hrun.change htop ?_
    rcases (x.start { m with schedule := events }).1 with f | ⟨⟩ <;> trivial

/-- **No value out of thin air.** Every call is one that an action of the graph declares.  Its
    inputs are the declared parameters as they stand, or if a parameter is a reference, the text of
    a value that came from outside or was put out by an earlier call that succeeded. -/
theorem fedAll_session (x : Execution) (seed : Dict String Value) (deeds : List Deed) :
    FedAll seed (deeds.flatMap Deed.planned) (Node.listing x.graph.nodes)
      (x.session seed deeds).course := by
  have hfresh : (Machine.fresh seed).Traced x.backend seed (deeds.flatMap Deed.planned)
      (Node.listing x.graph.nodes) :=
    ⟨Machine.sound_scheduled _ _ _, List.nil_subset _,
      fun earlier o later heq => absurd heq.symm (by simp [Machine.fresh, Machine.course])⟩
  have hdeed : ∀ m : Machine, (m.Standing x.backend seed ∧ m.Traced x.backend seed
        (deeds.flatMap Deed.planned) (Node.listing x.graph.nodes)) → ∀ d ∈ deeds,
      (x.undergo m d).Standing x.backend seed ∧ (x.undergo m d).Traced x.backend seed
        (deeds.flatMap Deed.planned) (Node.listing x.graph.nodes) :=
    fun m h d hd => ⟨standing_undergo h.1 d, traced_undergo h.2 h.1.root fun values hvalues =>
      List.mem_flatMap.2 ⟨d, hd, hvalues⟩⟩
  have htraced := (List.foldlRecOn deeds x.undergo ⟨standing_fresh x.backend seed, hfresh⟩ hdeed).2
  exact fun earlier s id c answer later heq => htraced.course earlier _ later heq

/-- A call of a first run is given an element of a list that others have published. -/
example :
    (nestedRun.start (.scheduled ∅ nestedEvents)).2.course.filterMap Occurrence.call? =
      [⟨"u", .singleton "p" "p"⟩, ⟨"u", .singleton "p" "q"⟩] := by
  decide +kernel

end Runbook
