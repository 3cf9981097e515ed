import Mathlib.Data.List.Nodup
import Runbook.Proofs.Reference
import Runbook.Proofs.Run.Early

namespace Runbook

/-!
# Scopes — what a broadcast shows, and to whom

A scope is part of many stacks: the one it was opened for and all that are put on top of it.  Values
that are exported on one stack are written into scopes that other stacks share.  This file says what
each of them finds then.

* `Family` — the scopes of one tree and the stacks made of them, whatever is done with them;
* `Family.present`, `Family.nodup`, `Family.told` — what holds of each family: the scopes of a stack
  are there and no scope is on it twice; a scope is what its changes make of it;
* `Stack.scope_publish`, `Stack.lookup_publish` — what exporting does to the scopes, and what any
  stack finds after it;
* `Broadcasts`, `broadcasts_of_family` — the law of broadcasts.
-/

/-! ### Families of scopes and stacks -/

/-- The scopes of one tree and the stacks made of them.  Scopes and stacks are made in any order,
    and anything may be done with them in between. -/
inductive Family (seed : Dict String Value) : Store → List Stack → Prop
  | root : Family seed (Store.empty.openRoot seed).2 []
  | openIn {store : Store} {made : List Stack} {parent : ScopeId} :
      Family seed store made → parent < store.size → Family seed (store.openIn parent).2 made
  | stackOf {store : Store} {made : List Stack} {scope : ScopeId} :
      Family seed store made → scope < store.size → Family seed store (.of scope :: made)
  | pushChild {store : Store} {made : List Stack} {s : Stack} :
      Family seed store made → s ∈ made →
      Family seed (s.pushChild store).2 ((s.pushChild store).1 :: made)
  | change {store : Store} {made : List Stack} {scope : ScopeId} (c : Change) :
      Family seed store made → scope < store.size → Family seed (store.apply scope c) made
  | publish {store : Store} {made : List Stack} {s : Stack} (values : Dict String Value) :
      Family seed store made → s ∈ made → Family seed (s.publish store values) made
  | cancel {store : Store} {made : List Stack} {scope : ScopeId} :
      Family seed store made → scope < store.size → Family seed (store.cancel scope) made

namespace Stack

variable {s : Stack} {store : Store} {values : Dict String Value}

/-- Exporting values to a stack is a change of each of its scopes, as often as it is there. -/
theorem publish_told (h : ∀ id ∈ s.scopes, id < store.size) (values : Dict String Value)
    (id : ScopeId) : (s.publish store values).size = store.size ∧
      ∃ changes : List Change, (s.publish store values).scope id =
        changes.foldl Scope.apply (store.scope id) := by
  unfold publish
  by_cases hempty : values.isEmpty
  · rw [if_pos hempty]
    exact ⟨rfl, [], rfl⟩
  · rw [if_neg hempty]
    obtain ⟨hsize, hscope⟩ := Store.scope_publishAll h values id
    exact ⟨hsize, _, hscope⟩

/-- **Exporting.** The scopes of the stack are changed once, and the other ones are left alone. -/
theorem scope_publish (h : ∀ id ∈ s.scopes, id < store.size) (hnodup : s.scopes.Nodup)
    (hvalues : values.isEmpty = false) (id : ScopeId) :
    (s.publish store values).scope id =
      if id ∈ s.scopes then (store.scope id).apply (.publish values) else store.scope id := by
  rw [publish, if_neg (by rw [hvalues]; exact Bool.false_ne_true),
    (Store.scope_publishAll h values id).2]
  by_cases hid : id ∈ s.scopes
  · rw [if_pos hid, List.count_eq_one_of_mem hnodup hid]
    rfl
  · rw [if_neg hid, List.count_eq_zero_of_not_mem hid]
    rfl

end Stack

namespace Family

variable {seed : Dict String Value} {store : Store} {made : List Stack}

/-- The scopes of every stack are there. -/
theorem present (h : Family seed store made) :
    ∀ s ∈ made, ∀ id ∈ s.scopes, id < store.size := by
  induction h with
  | root => exact fun s hs => absurd hs List.not_mem_nil
  | openIn _ _ ih =>
    intro s hs id hid
    rw [Store.size_openIn]
    exact Nat.lt_succ_of_lt (ih s hs id hid)
  | stackOf _ hscope ih =>
    intro s hs id hid
    rcases List.mem_cons.1 hs with rfl | hs
    · rwa [List.mem_singleton.1 hid]
    · exact ih s hs id hid
  | @pushChild store _ t _ ht ih =>
    intro s hs id hid
    have hsize : (t.pushChild store).2.size = store.size + 1 := Store.size_openIn _ _
    rw [hsize]
    rcases List.mem_cons.1 hs with rfl | hs
    · -- The new scope is the one after all others.
      rcases List.mem_cons.1 hid with rfl | hid
      · exact Nat.lt_succ_self _
      · exact Nat.lt_succ_of_lt (ih t ht id hid)
    · exact Nat.lt_succ_of_lt (ih s hs id hid)
  | change c _ _ ih =>
    intro s hs id hid
    rw [Store.size_apply]
    exact ih s hs id hid
  | publish values _ ht ih =>
    intro s hs id hid
    rw [(Stack.publish_told (ih _ ht) values id).1]
    exact ih s hs id hid
  | cancel _ _ ih => exact ih

/-- No scope is twice on a stack. -/
theorem nodup (h : Family seed store made) : ∀ s ∈ made, s.scopes.Nodup := by
  induction h with
  | root => exact fun s hs => absurd hs List.not_mem_nil
  | openIn _ _ ih | change _ _ _ ih | publish _ _ _ ih | cancel _ _ ih => exact ih
  | stackOf _ _ ih =>
    intro s hs
    rcases List.mem_cons.1 hs with rfl | hs
    · exact List.nodup_singleton _
    · exact ih s hs
  | @pushChild store _ t h ht ih =>
    intro s hs
    rcases List.mem_cons.1 hs with rfl | hs
    · -- The new scope was not there before, and the scopes of the stack were.
      exact List.nodup_cons.2 ⟨fun hmem => Nat.lt_irrefl _ (h.present t ht _ hmem), ih t ht⟩
    · exact ih s hs

/-- **Scopes.** A scope of a family is what its changes make of it, from the one that was opened. -/
theorem told (h : Family seed store made) (id : ScopeId) :
    ∃ changes : List Change, store.scope id = changes.foldl Scope.apply (.initial seed id) := by
  induction h with
  | root =>
    refine ⟨[], ?_⟩
    cases id with
    | zero => rfl
    | succ id => rfl
  | openIn _ _ ih =>
    rw [Store.scope_openIn]
    exact ih
  | stackOf _ _ ih => exact ih
  | @pushChild store _ t _ _ ih =>
    have hscope : (t.pushChild store).2.scope id = store.scope id := Store.scope_openIn _ _ _
    rw [hscope]
    exact ih
  | @change _ _ scope c _ hscope ih =>
    obtain ⟨changes, hchanges⟩ := ih
    rw [Store.scope_apply hscope, hchanges]
    by_cases hid : scope = id
    · exact ⟨changes ++ [c], by rw [if_pos hid, List.foldl_append]; rfl⟩
    · exact ⟨changes, if_neg hid⟩
  | publish values h ht ih =>
    obtain ⟨changes, hchanges⟩ := ih
    obtain ⟨-, later, hlater⟩ := Stack.publish_told (h.present _ ht) values id
    exact ⟨changes ++ later, by rw [hlater, hchanges, List.foldl_append]⟩
  | cancel _ _ ih => exact ih

/-- The values of the alert stay where they are, and only the root has them. -/
theorem seed_scope (h : Family seed store made) (id : ScopeId) :
    (store.scope id).seed = if id = 0 then seed else ∅ := by
  obtain ⟨changes, hchanges⟩ := h.told id
  have hseed : (store.scope id).seed = (Scope.initial seed id).seed := by
    rw [hchanges]
    exact List.foldlRecOn (motive := fun t : Scope => t.seed = (Scope.initial seed id).seed)
      changes Scope.apply rfl fun t ht c _ => (t.seed_apply c).trans ht
  rw [hseed, Scope.initial]
  by_cases hid : id = 0
  · rw [if_pos hid, if_pos hid]
  · rw [if_neg hid, if_neg hid]

end Family

/-! ### Looking up -/

namespace Scope

variable {s : Scope} {values : Dict String Value} {token name : String} {v : Value}

/-- Exported values win over the ones that are there. -/
theorem get?_publish (s : Scope) (values : Dict String Value) (name : String) :
    (s.apply (.publish values)).exported.get? name =
      (values.get? name).or (s.exported.get? name) := by
  rw [exported_apply, Dict.get?_extend]
  rfl

/-- What is exported to a scope is found there. -/
theorem lookup_publish (hname : name ≠ "") (hv : values.get? name = some v) :
    (s.apply (.publish values)).lookup ("$" ++ name) = some v := by
  rw [lookup, Reference.parse?_exported hname]
  show (s.apply (.publish values)).exported.get? name = some v
  rw [get?_publish, hv]
  rfl

/-- A token that spells none of the exported names stands for what it did before. -/
theorem lookup_publish_of_ne
    (htoken : ∀ name v, values.get? name = some v → token ≠ "$" ++ name) :
    (s.apply (.publish values)).lookup token = s.lookup token := by
  unfold lookup
  cases hparse : Reference.parse? token with
  | none => rfl
  | some r =>
    cases r with
    | alert => rfl
    | output node field => cases field <;> rfl
    | exported name =>
      show (s.apply (.publish values)).exported.get? name = s.exported.get? name
      rw [get?_publish]
      cases hname : values.get? name with
      | none => rfl
      | some v => exact absurd (Reference.eq_of_parse?_exported hparse) (htoken name v hname)

end Scope

/-- If all scopes of a list that know a token know the same value, the first of them knows it. -/
theorem findSome?_ite {scopes : List ScopeId} {id : ScopeId} {answer : Option Value} :
    (scopes.findSome? fun t => if t = id then answer else none) =
      if id ∈ scopes then answer else none := by
  induction scopes with
  | nil => rfl
  | cons t rest ih =>
    rw [List.findSome?_cons, ih]
    by_cases ht : t = id
    · subst ht
      cases answer <;> simp
    · rw [if_neg ht]
      simp [Ne.symm ht]

namespace Stack

variable {s : Stack} {store : Store} {values : Dict String Value}

/-- **Looking up.** After values were exported on a stack, any stack finds one of their names in the
    innermost of its scopes that was written or knew the name before. -/
theorem lookup_publish (h : ∀ id ∈ s.scopes, id < store.size) (hnodup : s.scopes.Nodup)
    {name : String} {v : Value} (hname : name ≠ "") (hv : values.get? name = some v) (q : Stack) :
    q.lookup (s.publish store values) ("$" ++ name) =
      q.scopes.findSome? fun id =>
        if id ∈ s.scopes then some v else (store.scope id).lookup ("$" ++ name) := by
  have hvalues : values.isEmpty = false := by
    refine Bool.eq_false_iff.2 fun hempty => ?_
    obtain rfl : values = ∅ := Dict.ext (List.isEmpty_iff.1 hempty)
    cases hv
  refine findSome?_congr fun id _ => ?_
  rw [scope_publish h hnodup hvalues]
  by_cases hid : id ∈ s.scopes
  · rw [if_pos hid, if_pos hid, Scope.lookup_publish hname hv]
  · rw [if_neg hid, if_neg hid]

end Stack

/-! ### The law of broadcasts -/

/-- `values` are exported on the stack `s` of a family, which takes `store` to `store'`. -/
structure Broadcasts (store : Store) (made : List Stack) (s : Stack)
    (values : Dict String Value) (store' : Store) : Prop where
  /-- Without values nothing changes. -/
  silent : values.isEmpty = true → store' = store
  /-- Each scope of the stack is one version on, and nothing changes but what it exports. -/
  written : values.isEmpty = false → ∀ id ∈ s.scopes, store'.scope id =
    { store.scope id with
      version := (store.scope id).version + 1
      exported := (store.scope id).exported.extend values }
  /-- The values are there under their names; other names keep theirs. -/
  exported : ∀ id ∈ s.scopes, ∀ name, (store'.scope id).exported.get? name =
    (values.get? name).or ((store.scope id).exported.get? name)
  untouched : ∀ id ∉ s.scopes, store'.scope id = store.scope id
  /-- The stack and all stacks that it was put on find the values, whatever they found before. -/
  within : ∀ p : Stack, p.scopes <:+ s.scopes → ∀ name v, values.get? name = some v →
    p.lookup store' ("$" ++ name) = some v
  /-- The stacks put on it find what their deeper scopes know, or else the values. -/
  beyond : ∀ q ∈ made, ∀ deeper, q.scopes = deeper ++ s.scopes → ∀ name v,
    values.get? name = some v → q.lookup store' ("$" ++ name) =
      (deeper.findSome? fun id => (store.scope id).lookup ("$" ++ name)).or (some v)
  /-- No other token stands for anything else than before, on any stack. -/
  elsewhere : ∀ (q : Stack) (token : String),
    (∀ name v, values.get? name = some v → token ≠ "$" ++ name) →
      q.lookup store' token = q.lookup store token

section

variable {seed : Dict String Value} {store : Store} {made : List Stack} {s : Stack}
  {values : Dict String Value}

theorem Family.broadcasts (h : Family seed store made) (hs : s ∈ made)
    (hnames : ∀ name v, values.get? name = some v → name ≠ "") :
    Broadcasts store made s values (s.publish store values) := by
  have hpresent := h.present s hs
  have hnodup := h.nodup s hs
  have hsilent : values.isEmpty = true → s.publish store values = store := fun hempty => by
    rw [Stack.publish, if_pos hempty]
  constructor
  case silent => exact hsilent
  case written =>
    intro hvalues id hid
    rw [Stack.scope_publish hpresent hnodup hvalues, if_pos hid]
    rfl
  case exported =>
    intro id hid name
    cases hempty : values.isEmpty with
    | true =>
      obtain rfl : values = ∅ := Dict.ext (List.isEmpty_iff.1 hempty)
      rw [hsilent hempty]
      rfl
    | false =>
      rw [Stack.scope_publish hpresent hnodup hempty, if_pos hid, Scope.get?_publish]
  case untouched =>
    intro id hid
    cases hempty : values.isEmpty with
    | true => rw [hsilent hempty]
    | false => rw [Stack.scope_publish hpresent hnodup hempty, if_neg hid]
  case within =>
    intro p hp name v hv
    have htop : p.top ∈ s.scopes := hp.subset List.mem_cons_self
    rw [Stack.lookup_publish hpresent hnodup (hnames name v hv) hv]
    show (p.top :: p.below).findSome? _ = some v
    rw [List.findSome?_cons, if_pos htop]
  case beyond =>
    intro q hq deeper hdeeper name v hv
    -- No scope above the stack is on it as well.
    have hdisjoint : ∀ id ∈ deeper, id ∉ s.scopes := by
      have hqnodup := h.nodup q hq
      rw [hdeeper] at hqnodup
      exact fun id hid hmem => (List.nodup_append.1 hqnodup).2.2 id hid id hmem rfl
    rw [Stack.lookup_publish hpresent hnodup (hnames name v hv) hv, hdeeper,
      List.findSome?_append, findSome?_congr fun id hid => if_neg (hdisjoint id hid)]
    have htop : s.top ∈ s.scopes := List.mem_cons_self
    refine congrArg _ ?_
    show (s.top :: s.below).findSome? _ = some v
    rw [List.findSome?_cons, if_pos htop]
  case elsewhere =>
    intro q token htoken
    refine findSome?_congr fun id _ => ?_
    cases hempty : values.isEmpty with
    | true => rw [hsilent hempty]
    | false =>
      rw [Stack.scope_publish hpresent hnodup hempty]
      by_cases hid : id ∈ s.scopes
      · rw [if_pos hid, Scope.lookup_publish_of_ne htoken]
      · rw [if_neg hid]

/-- A value of the alert is found on the stacks that have the root, and on no others. -/
theorem Family.lookup_alert (h : Family seed store made) (q : Stack) {token key : String}
    (htoken : Reference.parse? token = some (.alert key)) :
    q.lookup store token = if 0 ∈ q.scopes then seed.get? key else none := by
  have hscope : ∀ id, (store.scope id).lookup token = if id = 0 then seed.get? key else none := by
    intro id
    rw [Scope.lookup, htoken]
    show (store.scope id).seed.get? key = _
    rw [h.seed_scope]
    by_cases hid : id = 0
    · rw [if_pos hid, if_pos hid]
    · rw [if_neg hid, if_neg hid]
      rfl
  rw [Stack.lookup, funext hscope, findSome?_ite]

/-- **Broadcasts.** In every family, values can be exported on every stack by the law of broadcasts,
    and the alert is found as it was when the root, the scope 0, was opened with it. -/
theorem broadcasts_of_family (h : Family seed store made) :
    (∀ s ∈ made, ∀ values : Dict String Value,
      (∀ name v, values.get? name = some v → name ≠ "") →
        Broadcasts store made s values (s.publish store values)) ∧
      ∀ (q : Stack) (token key : String), Reference.parse? token = some (.alert key) →
        q.lookup store token = if 0 ∈ q.scopes then seed.get? key else none :=
  ⟨fun _ hs _ hnames => h.broadcasts hs hnames, fun q _ _ htoken => h.lookup_alert q htoken⟩

end

/-! ### Three levels -/

/-- A root and two scopes put on it, of which the deepest one exports `k`. -/
def levels : Store :=
  let (root, store) := Store.empty.openRoot (.singleton "a" (.scalar "1"))
  let (middle, store) := (Stack.of root).pushChild store
  let (inner, store) := middle.pushChild store
  store.apply inner.top (.publish (.singleton "k" (.scalar "deep")))

theorem family_levels :
    Family (.singleton "a" (.scalar "1")) levels [⟨2, [1, 0]⟩, ⟨1, [0]⟩, ⟨0, []⟩] := by
  have hmain : Family (.singleton "a" (.scalar "1")) _ [⟨0, []⟩] := .stackOf .root (by decide)
  have hmiddle := hmain.pushChild (List.mem_singleton_self _)
  exact .change _ (hmiddle.pushChild List.mem_cons_self) (by decide)

/-- Values are exported on the stack in the middle. -/
theorem broadcasts_levels :
    Family (.singleton "a" (.scalar "1")) levels [⟨2, [1, 0]⟩, ⟨1, [0]⟩, ⟨0, []⟩] ∧
      Broadcasts levels [⟨2, [1, 0]⟩, ⟨1, [0]⟩, ⟨0, []⟩] ⟨1, [0]⟩ (.singleton "k" (.scalar "new"))
        (Stack.publish ⟨1, [0]⟩ levels (.singleton "k" (.scalar "new"))) ∧
      Stack.lookup ⟨2, [1, 0]⟩ levels "@alert:a" = some (.scalar "1") := by
  obtain ⟨hbroadcasts, halert⟩ := broadcasts_of_family family_levels
  have hnames : ∀ name v, (Dict.singleton "k" (Value.scalar "new")).get? name = some v →
      name ≠ "" := by
    rintro name v hv rfl
    cases hv
  exact ⟨family_levels, hbroadcasts _ (by decide) _ hnames, halert _ _ "a" (by decide)⟩

/-- The deepest scope keeps its own value, and the scopes below it have the new one. -/
example : ([⟨2, [1, 0]⟩, ⟨1, [0]⟩, ⟨0, []⟩] : List Stack).map (fun q =>
    q.lookup (Stack.publish ⟨1, [0]⟩ levels (.singleton "k" (.scalar "new"))) "$k") =
      [some (.scalar "deep"), some (.scalar "new"), some (.scalar "new")] := by decide

end Runbook
