import Runbook.Proofs.Graph.Arena
import Runbook.Proofs.Run.Start

namespace Runbook

/-!
# Running a graph — two runs side by side

Two runs of the same nodes keep in step if they start from machines that are alike and each of their
steps keeps them so.  What alike means differs from one application to the next, and so do the nodes
that keep it up.

* `Lockstep` — two parts of runs that keep in step, with its rules for parts one after the other;
* `Scope.lookup_mono`, `Scope.lookup_congr` — what a scope finds depends on nothing but its values,
  actions and exports;
* `Node.references`, `Node.exportNames`, `Node.itemNames` — what a node looks up, and the names that
  it exports to;
* `Simulation` — a likeness of machines that each single step keeps up;
* `Simulation.runNodes` — so do the runs of nodes, by recursion over the nodes.

Likenesses are indexed by a number that grows along a run, like the number of scopes, so that frames
that are good once stay good.
-/

/-! ### Parts of runs that keep in step -/

/-- Two parts of runs end alike: both with answers that belong together, or both with the same
    failure, which is no cancellation unless `cancels` says so. -/
inductive EndAlike (cancels : Prop) {α β : Type} (post : α → β → Prop) :
    Except Failure α → Except Failure β → Prop
  | ok {a : α} {b : β} : post a b → EndAlike cancels post (.ok a) (.ok b)
  | error {f : Failure} : (f = .cancelled → cancels) → EndAlike cancels post (.error f) (.error f)

/-- Whole runs that end alike end in the same way. -/
theorem EndAlike.outcome_eq {cancels : Prop} {post : Unit → Unit → Prop} {ended ended' : Outcome}
    (h : EndAlike cancels post ended ended') :
    ended = ended' ∧ (ended = .error .cancelled → cancels) := by
  cases h with
  | ok => exact ⟨rfl, fun heq => by cases heq⟩
  | error hf => exact ⟨rfl, fun heq => hf (Except.error.inj heq)⟩

/-- Two parts of runs keep machines alike and end alike. -/
def Lockstep (alike : Nat → Machine → Machine → Prop) (cancels : Prop) {α β : Type} (k : Nat)
    (r : Run α) (r' : Run β) (post : Nat → α → β → Prop) : Prop :=
  ∀ m m', alike k m m' → ∃ k', k ≤ k' ∧ alike k' (r.on m).2 (r'.on m').2 ∧
    EndAlike cancels (post k') (r.on m).1 (r'.on m').1

namespace Lockstep

variable {alike : Nat → Machine → Machine → Prop} {cancels : Prop} {k : Nat} {α β γ δ : Type}
  {r : Run α} {r' : Run β} {post : Nat → α → β → Prop}

/-- Parts that do nothing keep in step, if their answers agree. -/
theorem ret {a : α} {b : β} (h : post k a b) : Lockstep alike cancels k (pure a) (pure b) post :=
  fun _ _ hm => ⟨k, Nat.le_refl k, hm, .ok h⟩

/-- Parts one after the other keep in step if the first ones do, and the second ones for all answers
    that belong together. -/
theorem bind {f : α → Run γ} {f' : β → Run δ} {last : Nat → γ → δ → Prop}
    (h : Lockstep alike cancels k r r' post)
    (hf : ∀ k', k ≤ k' → ∀ a b, post k' a b → Lockstep alike cancels k' (f a) (f' b) last) :
    Lockstep alike cancels k (r >>= f) (r' >>= f') last := by
  intro m m' hm
  obtain ⟨k₁, hk₁, hm₁, hended⟩ := h m m' hm
  rw [Run.on_bind, Run.on_bind]
  generalize r.on m = ended at *
  generalize r'.on m' = ended' at *
  obtain ⟨answer, m₁⟩ := ended
  obtain ⟨answer', m₁'⟩ := ended'
  cases hended with
  | ok hab =>
    obtain ⟨k₂, hk₂, hm₂, hlast⟩ := hf k₁ hk₁ _ _ hab m₁ m₁' hm₁
    exact ⟨k₂, Nat.le_trans hk₁ hk₂, hm₂, hlast⟩
  | error hf => exact ⟨k₁, hk₁, hm₁, .error hf⟩

/-- What is attempted on both sides ends alike on both. -/
theorem attempt (h : Lockstep alike cancels k r r' post) :
    Lockstep alike cancels k (Run.attempt r) (Run.attempt r')
      fun k' => EndAlike cancels (post k') := by
  intro m m' hm
  obtain ⟨k₁, hk₁, hm₁, hended⟩ := h m m' hm
  exact ⟨k₁, hk₁, hm₁, .ok hended⟩

end Lockstep

/-! ### What nodes read and write -/

namespace Scope

variable {s s' : Scope} {token : String}

/-- What is found in a scope is found in another one that exports no less. -/
theorem lookup_mono (hseed : s.seed = s'.seed) (hactions : s.actions = s'.actions)
    (hexported : ∀ name v, s.exported.get? name = some v → s'.exported.get? name = some v)
    {v : Value} (hv : s.lookup token = some v) : s'.lookup token = some v := by
  obtain ⟨reference, hparse, hresolve⟩ := Option.bind_eq_some_iff.1 hv
  refine Option.bind_eq_some_iff.2 ⟨reference, hparse, ?_⟩
  cases reference with
  | alert key =>
    rw [resolve?, ← hseed]
    exact hresolve
  | output node field =>
    cases field <;>
    · unfold resolve? output? resultOf? at hresolve ⊢
      rw [← hactions]
      exact hresolve
  | exported name => exact hexported name v hresolve

/-- Scopes with the same values, actions and exports find the same. -/
theorem lookup_congr (hseed : s.seed = s'.seed) (hactions : s.actions = s'.actions)
    (hexported : ∀ name, s.exported.get? name = s'.exported.get? name) :
    s.lookup token = s'.lookup token :=
  Option.ext fun _ =>
    ⟨lookup_mono hseed hactions fun name _ hname => (hexported name).symm.trans hname,
      lookup_mono hseed.symm hactions.symm fun name _ hname => (hexported name).trans hname⟩

end Scope

/-- The first scope of a stack that knows a token depends on nothing but what its scopes know. -/
theorem findSome?_congr {α β : Type} {f g : α → Option β} {l : List α} (h : ∀ a ∈ l, f a = g a) :
    l.findSome? f = l.findSome? g := by
  induction l with
  | nil => rfl
  | cons a rest ih =>
    rw [List.findSome?_cons, List.findSome?_cons, h a List.mem_cons_self,
      ih fun b hb => h b (List.mem_cons_of_mem _ hb)]

namespace Node

/-- What a node looks up itself. -/
def references : Node → List String
  | action _ _ params _ => referencesOf params.entries
  | choice _ condition _ _ =>
    match Condition.parse condition with
    | .ok c => c.comparison.references
    | .error _ => []
  | loop _ elements _ _ => [elements]

/-- The names that a node exports outputs to. -/
def exportNames : Node → List String
  | action _ _ _ exports => exports.keys
  | _ => []

/-- The name that a loop gives to its current element. -/
def itemNames : Node → List String
  | loop _ _ itemAs _ => itemAs.toList
  | _ => []

end Node

/-- A change that a node makes to its own scope, of which it knows all the data.  Values get into a
    scope by way of `exports` only. -/
def Change.Plain (exports : String → Prop) : Change → Prop
  | startIteration .. | publish _ => False
  | completeAction _ _ values => ∀ name ∈ values.keys, exports name
  | _ => True

/-- A likeness of machines that the single steps of two runs keep up.  The nodes look up nothing but
    `reads`, export to `exports` only and name the elements of loops by `items`. -/
structure Simulation (x : Execution) where
  alike : Nat → Machine → Machine → Prop
  frames : Nat → Frame → Frame → Prop
  /-- Whether runs may be cancelled. -/
  cancels : Prop
  reads : String → Prop
  exports : String → Prop
  items : String → Prop
  mono : ∀ {k k' : Nat} {frame frame' : Frame}, k ≤ k' → frames k frame frame' →
    frames k' frame frame'
  isCancelled : ∀ {k : Nat} {frame frame' : Frame} {m m' : Machine}, frames k frame frame' →
    alike k m m' → frame.stack.isCancelled m.store = frame'.stack.isCancelled m'.store ∧
      (frame.stack.isCancelled m.store = true → cancels)
  change : ∀ {k : Nat} {frame frame' : Frame} {m m' : Machine} {c : Change},
    frames k frame frame' → c.Plain exports → alike k m m' →
      alike k (m.change frame.top c) (m'.change frame'.top c)
  await : ∀ {k : Nat} {frame frame' : Frame} {m m' : Machine} (id : String) (limit : Nat)
    {token : String}, frames k frame frame' → reads token → alike k m m' →
      alike k (m.await frame.stack ⟨id, frame.path⟩ limit token).2
        (m'.await frame'.stack ⟨id, frame'.path⟩ limit token).2 ∧
      (m.await frame.stack ⟨id, frame.path⟩ limit token).1 =
        (m'.await frame'.stack ⟨id, frame'.path⟩ limit token).1 ∧
      ∀ token', (m.await frame.stack ⟨id, frame.path⟩ limit token).1 = .error (.cancelled token') →
        cancels
  call : ∀ {k : Nat} {frame frame' : Frame} {m m' : Machine} (id : String) (c : ActionCall),
    frames k frame frame' → alike k m m' →
      x.backend m.calls c = x.backend m'.calls c ∧
        alike k (x.called frame id c m) (x.called frame' id c m')
  publish : ∀ {k : Nat} {frame frame' : Frame} {m m' : Machine} {values : Dict String Value},
    frames k frame frame' → (∀ name ∈ values.keys, exports name) → alike k m m' →
      alike k (m.publish frame.stack values) (m'.publish frame'.stack values)
  openIteration : ∀ {k : Nat} {frame frame' : Frame} {m m' : Machine} (id : String)
    {itemAs : Option String} (index : Nat) (value : Value), frames k frame frame' →
      (∀ name ∈ itemAs.toList, items name) → alike k m m' →
      ∃ k', k ≤ k' ∧ alike k' (m.openIteration frame id itemAs index value)
          (m'.openIteration frame' id itemAs index value) ∧
        frames k' (frame.inner id index m.store.size) (frame'.inner id index m'.store.size)

/-- A node that keeps a likeness up. -/
structure Node.Keeps (reads exports items : String → Prop) (n : Node) : Prop where
  reads : ∀ token ∈ n.references, reads token
  exports : ∀ name ∈ n.exportNames, exports name
  items : ∀ name ∈ n.itemNames, items name

/-- A wait fails as cancelled only if it was. -/
theorem Failure.eq_cancelled_of_ofWait {node : String} {e : WaitError}
    (h : Failure.ofWait node e = .cancelled) : ∃ token, e = .cancelled token := by
  cases e with
  | timedOut => cases h
  | cancelled token => exact ⟨token, rfl⟩

namespace Simulation

variable {x : Execution} (S : Simulation x) {k : Nat} {frame frame' : Frame}

/-- Two parts of runs keep in step by a likeness. -/
abbrev InStep {α β : Type} (k : Nat) (r : Run α) (r' : Run β) (post : Nat → α → β → Prop) : Prop :=
  Lockstep S.alike S.cancels k r r' post

/-! ### Single steps -/

/-- The same plain change in both frames. -/
theorem record (hframes : S.frames k frame frame') (c : Change) (hc : c.Plain S.exports) :
    S.InStep k (Run.record frame c) (Run.record frame' c) fun _ _ _ => True :=
  fun _ _ hm => ⟨k, Nat.le_refl k, S.change hframes hc hm, .ok trivial⟩

/-- The same failure on both sides, with the same change. -/
theorem failWith {α β : Type} (hframes : S.frames k frame frame') (c : Change)
    (hc : c.Plain S.exports) {f : Failure} (hf : f = .cancelled → S.cancels)
    (post : Nat → α → β → Prop) :
    S.InStep k (Run.failWith frame c f) (Run.failWith frame' c f) post :=
  fun _ _ hm => ⟨k, Nat.le_refl k, S.change hframes hc hm, .error hf⟩

/-- Both sides see whether their scopes are cancelled, and agree. -/
theorem checkCancelled (hframes : S.frames k frame frame') :
    S.InStep k (Run.isCancelled frame) (Run.isCancelled frame')
      fun _ c c' => c = c' ∧ (c = true → S.cancels) :=
  fun _ _ hm => ⟨k, Nat.le_refl k, hm, .ok (S.isCancelled hframes hm)⟩

/-- Waiting for a token that may be read, with the same change if no value comes. -/
theorem awaitToken (hframes : S.frames k frame frame') (id : String) (limit : Nat)
    (onFail : String → Change) (hfail : ∀ e, (onFail e).Plain S.exports) {token : String}
    (htoken : S.reads token) :
    S.InStep k (Run.await frame id limit onFail token) (Run.await frame' id limit onFail token)
      fun _ v v' => v = v' := by
  intro m m' hm
  obtain ⟨hm₁, hanswer, hcancels⟩ := S.await id limit hframes htoken hm
  rw [Run.on_await, Run.on_await]
  generalize m.await frame.stack ⟨id, frame.path⟩ limit token = waited at *
  generalize m'.await frame'.stack ⟨id, frame'.path⟩ limit token = waited' at *
  obtain ⟨answer, m₁⟩ := waited
  obtain ⟨answer', m₁'⟩ := waited'
  dsimp only at *
  subst hanswer
  cases answer with
  | ok v => exact ⟨k, Nat.le_refl k, hm₁, .ok rfl⟩
  | error e =>
    refine ⟨k, Nat.le_refl k, S.change hframes (hfail _) hm₁, .error fun hf => ?_⟩
    obtain ⟨token', rfl⟩ := Failure.eq_cancelled_of_ofWait hf
    exact hcancels token' rfl

/-- Tokens are waited for one after the other. -/
theorem awaitAll (hframes : S.frames k frame frame') (id : String) (limit : Nat)
    (tokens : List String) (htokens : ∀ token ∈ tokens, S.reads token) :
    ∀ m m', S.alike k m m' →
      S.alike k (m.awaitAll frame.stack ⟨id, frame.path⟩ limit tokens).2
        (m'.awaitAll frame'.stack ⟨id, frame'.path⟩ limit tokens).2 ∧
      (m.awaitAll frame.stack ⟨id, frame.path⟩ limit tokens).1 =
        (m'.awaitAll frame'.stack ⟨id, frame'.path⟩ limit tokens).1 ∧
      ∀ token,
        (m.awaitAll frame.stack ⟨id, frame.path⟩ limit tokens).1 = .error (.cancelled token) →
          S.cancels := by
  induction tokens with
  | nil => exact fun m m' hm => ⟨hm, rfl, fun token h => by cases h⟩
  | cons token rest ih =>
    intro m m' hm
    obtain ⟨hm₁, hanswer, hcancels⟩ :=
      S.await id limit hframes (htokens token List.mem_cons_self) hm
    unfold Machine.awaitAll
    generalize m.await frame.stack ⟨id, frame.path⟩ limit token = waited at *
    generalize m'.await frame'.stack ⟨id, frame'.path⟩ limit token = waited' at *
    obtain ⟨answer, m₁⟩ := waited
    obtain ⟨answer', m₁'⟩ := waited'
    dsimp only at *
    subst hanswer
    cases answer with
    | error e => exact ⟨hm₁, rfl, fun token' h => hcancels token' (by rw [Except.error.inj h])⟩
    | ok v =>
      obtain ⟨hm₂, hlater, hcancels'⟩ :=
        ih (fun token ht => htokens token (List.mem_cons_of_mem _ ht)) m₁ m₁' hm₁
      dsimp only
      generalize m₁.awaitAll frame.stack ⟨id, frame.path⟩ limit rest = later at *
      generalize m₁'.awaitAll frame'.stack ⟨id, frame'.path⟩ limit rest = later' at *
      obtain ⟨answers, m₂⟩ := later
      obtain ⟨answers', m₂'⟩ := later'
      dsimp only at *
      subst hlater
      refine ⟨hm₂, rfl, fun token' h => ?_⟩
      cases answers with
      | ok => cases h
      | error e => exact hcancels' token' (by rw [Except.error.inj h])

/-- A part that waits for tokens and makes something of the values that come. -/
theorem awaiting {α : Type} (hframes : S.frames k frame frame') (id : String) (limit : Nat)
    {tokens : List String} (htokens : ∀ token ∈ tokens, S.reads token) (onFail : String → Change)
    (hfail : ∀ e, (onFail e).Plain S.exports) {f : List Value → α} {r r' : Run α}
    (hr : ∀ m, r.on m = match m.awaitAll frame.stack ⟨id, frame.path⟩ limit tokens with
      | (.ok values, m₁) => (.ok (f values), m₁)
      | (.error e, m₁) => (.error (.ofWait id e),
        m₁.change frame.stack.top (onFail (Failure.ofWait id e).recordText)))
    (hr' : ∀ m, r'.on m = match m.awaitAll frame'.stack ⟨id, frame'.path⟩ limit tokens with
      | (.ok values, m₁) => (.ok (f values), m₁)
      | (.error e, m₁) => (.error (.ofWait id e),
        m₁.change frame'.stack.top (onFail (Failure.ofWait id e).recordText))) :
    S.InStep k r r' fun _ a b => a = b := by
  intro m m' hm
  obtain ⟨hm₁, hanswer, hcancels⟩ := S.awaitAll hframes id limit tokens htokens m m' hm
  rw [hr, hr']
  generalize m.awaitAll frame.stack ⟨id, frame.path⟩ limit tokens = waited at *
  generalize m'.awaitAll frame'.stack ⟨id, frame'.path⟩ limit tokens = waited' at *
  obtain ⟨answer, m₁⟩ := waited
  obtain ⟨answer', m₁'⟩ := waited'
  dsimp only at *
  subst hanswer
  cases answer with
  | ok values => exact ⟨k, Nat.le_refl k, hm₁, .ok rfl⟩
  | error e =>
    refine ⟨k, Nat.le_refl k, S.change hframes (hfail _) hm₁, .error fun hf => ?_⟩
    obtain ⟨token, rfl⟩ := Failure.eq_cancelled_of_ofWait hf
    exact hcancels token rfl

/-- The parameters of an action, given that all their references may be read. -/
theorem parameters (hframes : S.frames k frame frame') (id : String)
    {declared : Dict String String}
    (hreads : ∀ token ∈ referencesOf declared.entries, S.reads token) :
    S.InStep k (Run.parameters x frame id declared) (Run.parameters x frame' id declared)
      fun _ a b => a = b :=
  S.awaiting hframes id x.options.actionLimit hreads (.failAction id) (fun _ => trivial)
    (Run.on_parameters x frame id declared) (Run.on_parameters x frame' id declared)

/-- The references of a condition, given that all of them may be read. -/
theorem bindAll (hframes : S.frames k frame frame') (id : String) {c : Condition}
    (hreads : ∀ token ∈ c.comparison.references, S.reads token) :
    S.InStep k (Run.bindAll x frame id c) (Run.bindAll x frame' id c) fun _ a b => a = b :=
  S.awaiting hframes id x.options.conditionLimit hreads (.failChoice id)
    (fun _ => trivial) (Run.on_bindAll x frame id c) (Run.on_bindAll x frame' id c)

/-- Both sides have made the same calls, so the backend answers the same. -/
theorem callAction (hframes : S.frames k frame frame') (id : String) (c : ActionCall) :
    S.InStep k (Run.call x frame id c) (Run.call x frame' id c) fun _ a b => a = b := by
  intro m m' hm
  obtain ⟨hanswer, hm₁⟩ := S.call id c hframes hm
  rw [Run.on_call, Run.on_call, ← hanswer]
  cases x.backend m.calls c with
  | ok result => exact ⟨k, Nat.le_refl k, hm₁, .ok rfl⟩
  | error e =>
    exact ⟨k, Nat.le_refl k, S.change hframes (c := .failAction id e.message) trivial hm₁,
      .error fun hf => by cases hf⟩

/-- Publishing values under names that may be exported. -/
theorem publishValues (hframes : S.frames k frame frame') {values : Dict String Value}
    (hvalues : ∀ name ∈ values.keys, S.exports name) :
    S.InStep k (modify fun m => m.publish frame.stack values)
      (modify fun m => m.publish frame'.stack values) fun _ _ _ => True :=
  fun _ _ hm => ⟨k, Nat.le_refl k, S.publish hframes hvalues hm, .ok trivial⟩

/-- Opening an iteration on both sides, which leads to frames in step again. -/
theorem openInner (hframes : S.frames k frame frame') (id : String) {itemAs : Option String}
    (index : Nat) (value : Value) (hitems : ∀ name ∈ itemAs.toList, S.items name) :
    S.InStep k (Run.openIteration frame id itemAs index value)
      (Run.openIteration frame' id itemAs index value) S.frames := by
  intro m m' hm
  obtain ⟨k', hk, hm₁, hinner⟩ := S.openIteration id index value hframes hitems hm
  rw [on_openIteration, on_openIteration]
  exact ⟨k', hk, hm₁, .ok hinner⟩

/-! ### Nodes -/

/-- An action exports to the names that are declared. -/
theorem keys_exportsOf {declared : Dict String String} {result : ActionResult} {name : String}
    (h : name ∈ (Run.exportsOf declared result).keys) : name ∈ declared.keys := by
  obtain ⟨e, he, rfl⟩ := List.mem_map.1 h
  obtain ⟨b, hb, heq⟩ := List.mem_filterMap.1 he
  obtain ⟨v, -, rfl⟩ := Option.map_eq_some_iff.1 heq
  exact List.mem_map.2 ⟨b, hb, rfl⟩

/-- An action on both sides, part by part as `Run.runAction` is written. -/
theorem runAction (hframes : S.frames k frame frame') {id urn : String}
    {params exports : Dict String String}
    (hn : (Node.action id urn params exports).Keeps S.reads S.exports S.items) :
    S.InStep k (Run.runAction x frame id urn params exports)
      (Run.runAction x frame' id urn params exports) fun _ _ _ => True := by
  unfold Run.runAction
  refine (S.record hframes (.startAction id) trivial).bind fun k₁ hk₁ _ _ _ => ?_
  have hframes₁ := S.mono hk₁ hframes
  refine (S.parameters hframes₁ id hn.reads).bind fun k₂ hk₂ inputs inputs' hinputs => ?_
  subst hinputs
  have hframes₂ := S.mono hk₂ hframes₁
  refine (S.record hframes₂ (.recordParams id inputs true) trivial).bind fun k₃ hk₃ _ _ _ => ?_
  have hframes₃ := S.mono hk₃ hframes₂
  refine (S.callAction hframes₃ id _).bind fun k₄ hk₄ result result' hresult => ?_
  subst hresult
  have hframes₄ := S.mono hk₄ hframes₃
  have hvalues : ∀ name ∈ (Run.exportsOf exports result).keys, S.exports name :=
    fun name hname => hn.exports name (keys_exportsOf hname)
  refine (S.publishValues hframes₄ hvalues).bind fun k₅ hk₅ _ _ _ => ?_
  exact S.record (S.mono hk₅ hframes₄) (.completeAction id result _) hvalues

/-- A choice is decided alike on both sides. -/
theorem decideOutcome (hframes : S.frames k frame frame') {id condition : String}
    {yes no : List Node} (hn : (Node.choice id condition yes no).Keeps S.reads S.exports S.items) :
    S.InStep k (Run.decideOutcome x frame id condition) (Run.decideOutcome x frame' id condition)
      fun _ a b => a = b := by
  unfold Run.decideOutcome
  refine (S.record hframes (.startChoice id) trivial).bind fun k₁ hk₁ _ _ _ => ?_
  have hframes₁ := S.mono hk₁ hframes
  have hreads := hn.reads
  rw [Node.references] at hreads
  cases hparse : Condition.parse condition with
  | error e => exact S.failWith hframes₁ (.failChoice id _) trivial (fun hf => by cases hf) _
  | ok c =>
    rw [hparse] at hreads
    refine (S.bindAll hframes₁ id hreads).bind fun k₂ hk₂ bound bound' hbound => ?_
    subst hbound
    have hframes₂ := S.mono hk₂ hframes₁
    dsimp only
    cases bound.1.evaluate with
    | error e => exact S.failWith hframes₂ (.failChoice id _) trivial (fun hf => by cases hf) _
    | ok outcome =>
      exact (S.record hframes₂ (.decideChoice id outcome _) trivial).bind fun _ _ _ _ _ => .ret rfl

/-- An iteration keeps in step if its body does. -/
theorem iterate (hframes : S.frames k frame frame') {id : String} {itemAs : Option String}
    {body : Frame → Run Unit} (hitems : ∀ name ∈ itemAs.toList, S.items name)
    (hbody : ∀ k inner inner', S.frames k inner inner' →
      S.InStep k (body inner) (body inner') fun _ _ _ => True) (index : Nat) (value : Value) :
    S.InStep k (Run.iterate x frame id itemAs body index value)
      (Run.iterate x frame' id itemAs body index value) fun _ _ _ => True := by
  unfold Run.iterate
  refine (S.checkCancelled hframes).bind fun k₁ hk₁ c c' hc => ?_
  obtain ⟨rfl, hcancels⟩ := hc
  have hframes₁ := S.mono hk₁ hframes
  cases c with
  | true =>
    dsimp only
    rw [if_pos rfl, if_pos rfl]
    refine Lockstep.bind (S.failWith hframes₁ (.failLoop id _) trivial (fun _ => hcancels rfl)
      fun _ _ _ => False) fun _ _ _ _ hfalse => hfalse.elim
  | false =>
    dsimp only
    rw [if_neg (by simp), if_neg (by simp)]
    refine (S.openInner hframes₁ id index value hitems).bind fun k₂ hk₂ inner inner' hinner => ?_
    refine (hbody k₂ inner inner' hinner).attempt.bind fun k₃ hk₃ ended ended' hended => ?_
    have hframes₃ := S.mono (Nat.le_trans hk₂ hk₃) hframes₁
    have hinner₃ := S.mono hk₃ hinner
    cases hended with
    | ok => exact S.record hinner₃ .close trivial
    | @error f hf =>
      have hclose : ∀ {last : Run Unit} {last' : Run Unit},
          (∀ k₄, k₃ ≤ k₄ → S.InStep k₄ last last' fun _ _ _ => True) →
          S.InStep k₃ (Run.record inner (.closeWithError f.message) >>= fun _ => last)
            (Run.record inner' (.closeWithError f.message) >>= fun _ => last')
            fun _ _ _ => True :=
        fun hlast => (S.record hinner₃ (.closeWithError _) trivial).bind
          fun k₄ hk₄ _ _ _ => hlast k₄ hk₄
      cases f with
      | cancelled => exact S.failWith hframes₃ (.failLoop id _) trivial (fun _ => hf rfl) _
      | _ =>
        refine hclose fun k₄ hk₄ => ?_
        -- The policy is the same on both sides.
        cases x.options.onFailure with
        | proceed => exact .ret trivial
        | halt =>
          exact S.failWith (S.mono hk₄ hframes₃) (.failLoop id _) trivial (fun hf => by cases hf) _

/-- The iterations that are left, by induction on their values. -/
theorem iterateAll {id : String} {itemAs : Option String}
    {body : Frame → Run Unit} (hitems : ∀ name ∈ itemAs.toList, S.items name)
    (hbody : ∀ k inner inner', S.frames k inner inner' →
      S.InStep k (body inner) (body inner') fun _ _ _ => True) (values : List Value) :
    ∀ (k : Nat), S.frames k frame frame' → ∀ index : Nat,
      S.InStep k (Run.iterateAll x frame id itemAs body index values)
        (Run.iterateAll x frame' id itemAs body index values) fun _ _ _ => True := by
  induction values with
  | nil => exact fun k _ _ => .ret trivial
  | cons v rest ih =>
    intro k hframes index
    exact (S.iterate hframes hitems hbody index v).bind fun k₁ hk₁ _ _ _ =>
      ih k₁ (S.mono hk₁ hframes) (index + 1)

/-- A loop on both sides, if its body keeps in step in all frames in step. -/
theorem runLoop (hframes : S.frames k frame frame') {id elements : String}
    {itemAs : Option String} {nodes : List Node} {body : Frame → Run Unit}
    (hn : (Node.loop id elements itemAs nodes).Keeps S.reads S.exports S.items)
    (hbody : ∀ k inner inner', S.frames k inner inner' →
      S.InStep k (body inner) (body inner') fun _ _ _ => True) :
    S.InStep k (Run.runLoop x frame id elements itemAs body)
      (Run.runLoop x frame' id elements itemAs body) fun _ _ _ => True := by
  unfold Run.runLoop
  refine (S.record hframes (.startLoop id true) trivial).bind fun k₁ hk₁ _ _ _ => ?_
  have hframes₁ := S.mono hk₁ hframes
  refine (S.awaitToken hframes₁ id _ (.failLoop id) (fun _ => trivial)
    (hn.reads elements List.mem_cons_self)).bind fun k₂ hk₂ v v' hv => ?_
  subst hv
  have hframes₂ := S.mono hk₂ hframes₁
  refine (S.iterateAll hn.items hbody v.expand k₂ hframes₂ 1).bind fun k₃ hk₃ _ _ _ => ?_
  exact S.record (S.mono hk₃ hframes₂) (.finishLoop id) trivial

mutual

/-- The cases of `runNodes` by the kind of the node. -/
theorem runNode : ∀ (n : Node) (k : Nat) (frame frame' : Frame), S.frames k frame frame' →
    (∀ n' ∈ n.subtree, n'.Keeps S.reads S.exports S.items) →
      S.InStep k (Run.runNode x frame n) (Run.runNode x frame' n) fun _ _ _ => True
  | .action id urn params exports, k, frame, frame', hframes, hn => by
    rw [Run.runNode, Run.runNode]
    exact S.runAction hframes (hn _ List.mem_cons_self)
  | .choice id condition yes no, k, frame, frame', hframes, hn => by
    rw [Run.runNode, Run.runNode]
    refine (S.decideOutcome hframes (hn _ List.mem_cons_self)).bind fun k₁ hk₁ b b' hb => ?_
    subst hb
    have hyes := runNodes yes k₁ frame frame' (S.mono hk₁ hframes) fun n' hn' =>
      hn n' (List.mem_cons_of_mem _ (List.mem_append_left _ hn'))
    have hno := runNodes no k₁ frame frame' (S.mono hk₁ hframes) fun n' hn' =>
      hn n' (List.mem_cons_of_mem _ (List.mem_append_right _ hn'))
    cases b with
    | true => exact hyes
    | false => exact hno
  | .loop id elements itemAs body, k, frame, frame', hframes, hn => by
    rw [Run.runNode, Run.runNode]
    exact S.runLoop hframes (hn _ List.mem_cons_self) fun k inner inner' hinner =>
      runNodes body k inner inner' hinner fun n' hn' => hn n' (List.mem_cons_of_mem _ hn')

/-- **Side by side.** Nodes that keep a likeness up are run in step. -/
theorem runNodes : ∀ (nodes : List Node) (k : Nat) (frame frame' : Frame),
    S.frames k frame frame' →
    (∀ n ∈ Node.listing nodes, n.Keeps S.reads S.exports S.items) →
      S.InStep k (Run.runNodes x frame nodes) (Run.runNodes x frame' nodes) fun _ _ _ => True
  | [], k, _, _, _, _ => by
    rw [Run.runNodes, Run.runNodes]
    exact .ret trivial
  | n :: rest, k, frame, frame', hframes, hn => by
    rw [Run.runNodes, Run.runNodes]
    refine (S.checkCancelled hframes).bind fun k₁ hk₁ c c' hc => ?_
    obtain ⟨rfl, hcancels⟩ := hc
    have hframes₁ := S.mono hk₁ hframes
    cases c with
    | true => exact fun m m' hm => ⟨k₁, Nat.le_refl _, hm, .error fun _ => hcancels rfl⟩
    | false =>
      refine (runNode n k₁ frame frame' hframes₁ fun n' hn' =>
        hn n' (List.mem_append_left _ hn')).bind fun k₂ hk₂ _ _ _ => ?_
      exact runNodes rest k₂ frame frame' (S.mono hk₂ hframes₁) fun n' hn' =>
        hn n' (List.mem_append_right _ hn')

end

end Simulation

end Runbook
