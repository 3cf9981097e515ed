import Runbook.Proofs.Run.Foreseen
import Runbook.Proofs.Run.Places
import Runbook.Proofs.Run.Tree

namespace Runbook

/-!
# Running a graph — the records of choices

The record of a choice says which texts it has compared and what the outcome was, so that anybody
can compare them once more.  The outcome tells in turn which nodes have not been run.

* `Comparison.replay` — the answer of a comparison by the texts on record;
* `Decides.verdict` — a choice puts on record what it has compared, or why it has not;
* `Meets.within` — a way to a node leads through the node at the top that it is inside of;
* `Meets.through` — so a way to a node leads through every node that it is inside of, in the scope
  above its own;
* `decided_start` — what is on record of a node of a branch shows that the branch was taken;
* `audited_start` — after the first run of a graph that was built, all of this holds of every record
  of a choice.
-/

/-! ### Comparing once more -/

/-- The text that an operand stands for, by the texts on record. -/
def Operand.textIn (used : Dict String String) : Operand → Option String
  | literal s => some s
  | reference token => used.get? token

/-- The answer of a comparison by the texts on record, if these are enough. -/
def Comparison.replay (c : Comparison) (used : Dict String String) :
    Option (Except EvalError Bool) := do
  let lhs ← c.lhs.textIn used
  let rhs ← c.rhs.textIn used
  return c.op.holds lhs rhs

namespace Condition

variable {c : Condition}

theorem of_parse {expression : String} (h : parse expression = .ok c) :
    Comparison.parse expression = .ok c.comparison ∧ c.bound = ∅ := by
  refine ⟨?_, bound_of_parse h⟩
  rw [parse] at h
  cases hparse : Comparison.parse expression with
  | error e =>
    rw [hparse] at h
    cases h
  | ok comparison =>
    rw [hparse] at h
    cases h
    rfl

/-- What is bound is the text of its value on record. -/
theorem textIn_of_textOf {o : Operand} {s : String} (h : c.textOf o = .ok s) :
    o.textIn (c.bound.map Value.text) = some s := by
  cases o with
  | literal =>
    cases h
    rfl
  | reference token =>
    rw [textOf] at h
    rw [Operand.textIn, Dict.get?_map]
    cases hv : c.bound.get? token with
    | none =>
      rw [hv] at h
      cases h
    | some v =>
      rw [hv] at h
      cases h
      rfl

/-- **Replays.** The texts on record lead to the same answer as the values that were bound. -/
theorem replay_of_evaluate {b : Bool} (h : c.evaluate = .ok b) :
    c.comparison.replay (c.bound.map Value.text) = some (.ok b) := by
  unfold evaluate at h
  cases hlhs : c.textOf c.comparison.lhs with
  | error e =>
    rw [hlhs] at h
    cases h
  | ok lhs =>
    cases hrhs : c.textOf c.comparison.rhs with
    | error e =>
      rw [hlhs, hrhs] at h
      cases h
    | ok rhs =>
      rw [hlhs, hrhs] at h
      have hholds : c.comparison.op.holds lhs rhs = .ok b := h
      rw [Comparison.replay, textIn_of_textOf hlhs, textIn_of_textOf hrhs, ← hholds]
      rfl

theorem get?_bindEach_of_notMem {tokens : List String} {token : String} (h : token ∉ tokens) :
    ∀ (c : Condition) (values : List Value),
      (c.bindEach tokens values).bound.get? token = c.bound.get? token := by
  induction tokens with
  | nil => exact fun _ _ => rfl
  | cons first rest ih =>
    intro c values
    rw [List.mem_cons, not_or] at h
    obtain ⟨hfirst, hrest⟩ := h
    cases values with
    | nil => rfl
    | cons v values =>
      have hbind : (c.bind first v).bound.get? token = c.bound.get? token := by
        rw [bind, Dict.get?_insert, if_neg hfirst]
      exact (ih hrest (c.bind first v) values).trans hbind

/-- What is on record are the references of the condition, and nothing else. -/
theorem contains_bindEach {values : List Value} (hbound : c.bound = ∅)
    (hlength : values.length = c.comparison.references.length) (token : String) :
    ((c.bindEach c.comparison.references values).bound.map Value.text).contains token = true ↔
      c.comparison.lhs = .reference token ∨ c.comparison.rhs = .reference token := by
  rw [Dict.contains_map, Dict.contains, ← Comparison.mem_references]
  refine ⟨fun hsome => ?_, fun hmem => isSome_bindEach _ c values hlength token (.inr hmem)⟩
  by_contra hmem
  rw [get?_bindEach_of_notMem hmem, hbound] at hsome
  cases hsome

end Condition

/-! ### Records of choices -/

/-- The record of a choice with this condition tells how it came to an answer: by a comparison that
    can be made once more, or by a failure that has kept it from one. -/
inductive ChoiceRecord.Answers (condition : String) : ChoiceRecord → Prop
  | failed (f : Failure) : Answers condition { done := true, error := some f.recordText }
  | decided {c : Comparison} {b : Bool} {used : Dict String String} :
      Comparison.parse condition = .ok c →
      (∀ token, used.contains token = true ↔
        c.lhs = .reference token ∨ c.rhs = .reference token) →
      c.replay used = some (.ok b) →
      Answers condition { done := true, outcome := some b, used := used }

variable {x : Execution} {frame : Frame} {m m' : Machine} {happened : List Occurrence}

/-- **Verdicts.** A choice puts on record what it has compared, or why it has not. -/
theorem Decides.verdict {id condition : String} {answer : Except Failure Bool}
    (h : Decides x frame id condition m happened answer m') :
    ∃ c r, .changed frame.top c ∈ happened ∧ c.verdict? = some (id, r) ∧ r.Answers condition := by
  cases h with
  | malformed | starved | undecidable =>
    exact ⟨_, _, List.mem_append_right _ List.mem_cons_self, rfl, .failed _⟩
  | decided hparse hw hvalue =>
    obtain ⟨hcomparison, hbound⟩ := Condition.of_parse hparse
    have hreplay := Condition.replay_of_evaluate hvalue
    rw [Condition.comparison_bindEach] at hreplay
    exact ⟨_, _, List.mem_append_right _ List.mem_cons_self, rfl,
      .decided hcomparison (Condition.contains_bindEach hbound hw.length_eq) hreplay⟩

/-- A choice that is run has a verdict. -/
theorem Exec.verdict {id condition : String} {yes no : List Node} {outcome : Outcome}
    (h : Exec x frame (.node (.choice id condition yes no)) m happened outcome m') :
    ∃ c r, .changed frame.top c ∈ happened ∧ c.verdict? = some (id, r) ∧ r.Answers condition := by
  cases h with
  | undecided h => exact h.verdict
  | decided h _ =>
    obtain ⟨c, r, hmem, hverdict⟩ := h.verdict
    exact ⟨c, r, List.mem_append_left _ hmem, hverdict⟩

/-! ### Nodes inside other nodes -/

section

variable {course : List Occurrence} {top s : ScopeId} {nodes : List Node} {n e e' : Node}

/-- A node is inside one of some nodes only, if their ids differ. -/
theorem Node.eq_of_mem_subtree (hd : (Task.nodes nodes).Distinct) (he : e ∈ nodes)
    (he' : e' ∈ nodes) (hn : n ∈ e.subtree) (hn' : n ∈ e'.subtree) : e = e' := by
  induction nodes with
  | nil => cases he
  | cons first rest ih =>
    obtain ⟨-, hrest, hdisjoint⟩ := Task.distinct_cons hd
    rcases List.mem_cons.1 he with heq | hlater <;> rcases List.mem_cons.1 he' with heq' | hlater'
    · exact heq.trans heq'.symm
    · exact absurd rfl (hdisjoint n (heq ▸ hn) n (mem_listing.2 ⟨e', hlater', hn'⟩))
    · exact absurd rfl (hdisjoint n (heq' ▸ hn') n (mem_listing.2 ⟨e, hlater, hn⟩))
    · exact ih hrest hlater hlater'

theorem Task.distinct_of_listed (hd : (Task.nodes nodes).Distinct)
    (he : e ∈ Node.listing nodes) : (Task.node e).Distinct :=
  List.Nodup.sublist ((Node.sublist_listing he).map Node.id) hd

theorem Task.distinct_of_mem (hd : (Task.nodes nodes).Distinct) (he : e ∈ nodes) :
    (Task.node e).Distinct :=
  distinct_of_listed hd (Node.mem_listing.2 ⟨e, he, Node.mem_subtree_self e⟩)

theorem Task.distinct_loop {id elements : String} {itemAs : Option String} {body : List Node}
    (hd : (Task.node (.loop id elements itemAs body)).Distinct) :
    (Task.nodes body).Distinct ∧ ∀ n ∈ Node.listing body, n.id ≠ id := by
  have hd : (id :: (Node.listing body).map Node.id).Nodup := hd
  obtain ⟨hid, hbody⟩ := List.nodup_cons.1 hd
  refine ⟨hbody, fun n hn heq => hid ?_⟩
  rw [← heq]
  exact List.mem_map_of_mem hn

/-- No node is in both branches of a choice. -/
theorem Task.distinct_branches {id condition : String} {yes no : List Node} {b : Bool}
    (hd : (Task.node (.choice id condition yes no)).Distinct)
    (hn : n ∈ Node.listing (if b then no else yes)) :
    n ∈ Node.listing yes ++ Node.listing no ∧ n ∉ Node.listing (if b then yes else no) := by
  have hd : (id :: (Node.listing yes ++ Node.listing no).map Node.id).Nodup := hd
  have hdisjoint := (List.nodup_append.1 (List.Nodup.of_map _ (List.nodup_cons.1 hd).2)).2.2
  cases b with
  | true => exact ⟨List.mem_append_right _ hn, fun hn' => hdisjoint n hn' n hn rfl⟩
  | false => exact ⟨List.mem_append_left _ hn, fun hn' => hdisjoint n hn n hn' rfl⟩

/-- A course comes to nodes that are listed. -/
theorem Meets.mem_listing (h : Meets course top nodes s n) : n ∈ Node.listing nodes := by
  induction h with
  | here hn => exact Node.mem_listing.2 ⟨_, hn, Node.mem_subtree_self _⟩
  | @branch _ _ _ yes no _ _ _ b _ hn _ _ ih =>
    exact Node.mem_listing.2 ⟨_, hn, List.mem_cons_of_mem _ (Node.listing_branch b yes no ih)⟩
  | iteration hn _ _ ih => exact Node.mem_listing.2 ⟨_, hn, List.mem_cons_of_mem _ ih⟩

/-- A way to a node leads through the node that it is inside of. -/
theorem Meets.within (h : Meets course top nodes s n) (hd : (Task.nodes nodes).Distinct)
    (he : e ∈ nodes) (hn : n ∈ e.subtree) : Meets course top [e] s n := by
  have hsame : ∀ {e' : Node}, e' ∈ nodes → n ∈ e'.subtree → e' ∈ [e] := fun he' hn' =>
    List.mem_singleton.2 (Node.eq_of_mem_subtree hd he' he hn' hn)
  cases h with
  | here hn' => exact .here (hsame hn' (Node.mem_subtree_self n))
  | @branch _ _ _ yes no _ _ _ b _ hn' hdecide hrest =>
    have hinside := Node.listing_branch b yes no hrest.mem_listing
    exact .branch (hsame hn' (List.mem_cons_of_mem _ hinside)) hdecide hrest
  | iteration hn' hstart hrest =>
    exact .iteration (hsame hn' (List.mem_cons_of_mem _ hrest.mem_listing)) hstart hrest

end

/-! ### Ways to one scope -/

/-- A scope in the tree has a place there. -/
theorem Store.InTree.place {store : Store} {s t : ScopeId} (h : store.InTree s t) :
    ∃ place, store.scopeAt? s place = some t := by
  induction h with
  | root => exact ⟨[], rfl⟩
  | @child _ id r index _ _ hr hi ih =>
    obtain ⟨place, hplace⟩ := ih
    refine ⟨place ++ [(id, index)], ?_⟩
    rw [scopeAt?_append, hplace, Option.bind_some, scopeAt?, hr, Option.bind_some, hi]
    rfl

section

variable {seed : Dict String Value} {scopes : ScopeId → Prop}
  {all nodes : List Node} {top s t : ScopeId} {n e : Node}

/-- The iterations on the way to a node lead to its scope. -/
theorem Tells.place_of_meets (h : Tells scopes all m.course) (hm : m.Sound x.backend seed)
    (hmeets : Meets m.course top nodes s n) : ∃ place, m.store.scopeAt? top place = some s := by
  induction hmeets with
  | here => exact ⟨[], rfl⟩
  | branch _ _ _ ih => exact ih
  | @iteration _ _ _ _ _ _ id _ _ _ _ _ hstart _ ih =>
    obtain ⟨place, hplace⟩ := ih
    obtain ⟨r, k, hr, hk⟩ := h.of_iteration hm hstart
    refine ⟨(id, k) :: place, ?_⟩
    rw [Store.scopeAt?, hr, Option.bind_some, hk]
    exact hplace

/-- One more iteration on the way to a scope. -/
theorem Store.scopeAt?_through {store : Store} {above rest : Place} {id : String} {k : Int}
    {r : LoopRecord} {i : Iteration} (habove : store.scopeAt? 0 above = some top)
    (hr : (store.scope top).loops.get? id = some r) (hk : r.history.get? k = some i)
    (hrest : store.scopeAt? i.scope rest = some t) :
    store.scopeAt? 0 (above ++ (id, k) :: rest) = some t := by
  rw [scopeAt?_append, habove, Option.bind_some, scopeAt?, hr, Option.bind_some, hk]
  exact hrest

/-- Two iterations of a loop that both lead to one scope are one. -/
theorem Tells.eq_of_iterations (h : Tells scopes all m.course) (hm : m.Sound x.backend seed)
    {count : Nat} (hnumbers : m.course.filterMap Occurrence.child? = List.range' 1 count)
    {above place place' : Place} {id : String} {k k' : Int} {v v' : Value} {u u' : ScopeId}
    (habove : m.store.scopeAt? 0 above = some top)
    (hstart : .changed top (.startIteration id k v u) ∈ m.course)
    (hstart' : .changed top (.startIteration id k' v' u') ∈ m.course)
    (hplace : m.store.scopeAt? u place = some t) (hplace' : m.store.scopeAt? u' place' = some t) :
    u = u' := by
  obtain ⟨r, i, hr, hi⟩ := h.of_iteration hm hstart
  obtain ⟨r', i', hr', hi'⟩ := h.of_iteration hm hstart'
  obtain rfl := Option.some.inj (hr.symm.trans hr')
  -- The scope has one place, so the ways to it agree on the number of the iteration.
  have hplaces := h.place_unique hm hnumbers (Store.scopeAt?_through habove hr hi hplace)
    (Store.scopeAt?_through habove hr hi' hplace')
  have hindices : i = i' :=
    congrArg Prod.snd (List.cons.inj (List.append_cancel_left hplaces)).1
  subst hindices
  exact congrArg Iteration.scope (Option.some.inj (hi.symm.trans hi'))

/-- **Ways.** Where a run comes to a node of a scope, and to a node inside of it in a scope below,
    it comes to the second one by way of the first. -/
theorem Meets.through (htells : Tells scopes all m.course) (hm : m.Sound x.backend seed)
    {count : Nat} (hnumbers : m.course.filterMap Occurrence.child? = List.range' 1 count)
    (he : Meets m.course top nodes s e) (hinside : n ∈ e.subtree) {below : Place}
    (hbelow : m.store.scopeAt? s below = some t) :
    ∀ {above : Place}, m.store.scopeAt? 0 above = some top → (Task.nodes nodes).Distinct →
      Meets m.course top nodes t n → Meets m.course s [e] t n := by
  -- The second way is the same as the first one as far as that one goes.
  induction he with
  | here he => exact fun _ hd hn => hn.within hd he hinside
  | @branch top s _ yes no e id condition b _ hchoice hdecide he ih =>
    intro above habove hd hn
    have hlisted : n ∈ Node.listing (if b then yes else no) :=
      (Node.sublist_listing he.mem_listing).subset hinside
    have hbranch := List.mem_cons_of_mem (Node.choice id condition yes no)
      (Node.listing_branch b yes no hlisted)
    obtain ⟨hd', hids⟩ := Task.distinct_choice (Task.distinct_of_mem hd hchoice) b
    cases hn.within hd hchoice hbranch with
    | here hn =>
      rw [List.mem_singleton.1 hn] at hlisted
      exact absurd rfl (hids _ hlisted).1
    | branch hchoice' hdecide' hn =>
      cases List.mem_singleton.1 hchoice'
      -- A choice decides only once.
      cases (htells.of_verdict hm rfl hdecide).symm.trans (htells.of_verdict hm rfl hdecide')
      exact ih hinside hbelow habove hd' hn
    | iteration hloop => cases List.mem_singleton.1 hloop
  | @iteration top inner s _ body e id elements itemAs k v hloop hstart he ih =>
    intro above habove hd hn
    have hlisted : n ∈ Node.listing body := (Node.sublist_listing he.mem_listing).subset hinside
    have hbody := List.mem_cons_of_mem (Node.loop id elements itemAs body) hlisted
    obtain ⟨hd', hids⟩ := Task.distinct_loop (Task.distinct_of_mem hd hloop)
    cases hn.within hd hloop hbody with
    | here hn =>
      rw [List.mem_singleton.1 hn] at hlisted
      exact absurd rfl (hids _ hlisted)
    | branch hchoice => cases List.mem_singleton.1 hchoice
    | iteration hloop' hstart' hn =>
      cases List.mem_singleton.1 hloop'
      obtain ⟨place, hplace⟩ := htells.place_of_meets hm he
      obtain ⟨place', hplace'⟩ := htells.place_of_meets hm hn
      have hfirst : m.store.scopeAt? inner (place ++ below) = some t := by
        rw [Store.scopeAt?_append, hplace, Option.bind_some, hbelow]
      obtain rfl := htells.eq_of_iterations hm hnumbers habove hstart hstart' hfirst hplace'
      obtain ⟨r, i, hr, hi⟩ := htells.of_iteration hm hstart
      have hself : m.store.scopeAt? inner [] = some inner := rfl
      exact ih hinside hbelow (Store.scopeAt?_through habove hr hi hself) hd' hn

/-- Where a run comes from a choice to a node inside of it, the choice has decided for the branch of
    the node. -/
theorem Meets.decided {id condition : String} {yes no : List Node}
    (h : Meets m.course s [.choice id condition yes no] t n)
    (hd : (Task.node (.choice id condition yes no)).Distinct)
    (hn : n ∈ Node.listing yes ++ Node.listing no) :
    ∃ b used, .changed s (.decideChoice id b used) ∈ m.course ∧
      n ∈ Node.listing (if b then yes else no) := by
  cases h with
  | here h =>
    rw [List.mem_singleton.1 h] at hn
    rcases List.mem_append.1 hn with hn | hn
    · exact absurd rfl ((Task.distinct_choice hd true).2 _ hn).1
    · exact absurd rfl ((Task.distinct_choice hd false).2 _ hn).1
  | branch h hdecide hrest =>
    cases List.mem_singleton.1 h
    exact ⟨_, _, hdecide, hrest.mem_listing⟩
  | iteration h => cases List.mem_singleton.1 h

end

/-! ### The first run -/

section

variable (x) (seed : Dict String Value) (events : List Event)
  (hd : ((Node.listing x.graph.nodes).map Node.id).Nodup)
include hd

/-- What is on record of a node was made before the run closed its own scope. -/
theorem started_of_holds {s : ScopeId} {id : String} {r : Record}
    (hr : ((x.start (.scheduled seed events)).2.store.scope s).Holds id r) :
    ∃ happened outcome m', Started x (.scheduled seed events) happened outcome m' ∧
      .changed s (r.start id) ∈ happened ∧
      happened ⊆ (x.start (.scheduled seed events)).2.course := by
  obtain ⟨happened, hstarted, hcourse, hsound⟩ := start_scheduled x seed events
  obtain ⟨hstart, -⟩ := (tells_start x seed events hd).of_holds hsound hr
  refine ⟨happened, _, _, hstarted, ?_, hcourse ▸ List.subset_append_left _ _⟩
  rw [hcourse] at hstart
  refine (List.mem_append.1 hstart).resolve_right (not_mem_changed (r.starts_start id) ?_)
  rcases (x.start (.scheduled seed events)).1 with f | ⟨⟩ <;> rfl

/-- The record of a node was made where the run came to the node. -/
theorem meets_start {s : ScopeId} {id : String} {r : Record}
    (hr : ((x.start (.scheduled seed events)).2.store.scope s).Holds id r) :
    ∃ n, n.id = id ∧ Meets (x.start (.scheduled seed events)).2.course 0 x.graph.nodes s n := by
  obtain ⟨happened, _, _, hstarted, hmem, hsub⟩ := started_of_holds x seed events hd hr
  obtain ⟨m₁, hexec, -⟩ := hstarted.exec
  obtain ⟨n, hn, hmeets⟩ := hexec.meets hstarted.ready hmem (r.starts_start id)
  refine ⟨n, ?_, Meets.mono hmeets hsub fun _ hn => hn⟩
  cases n <;> cases r <;> cases hn <;> rfl

/-- The record of a choice is its verdict. -/
theorem answers_start {s : ScopeId} {id : String} {r : ChoiceRecord}
    (hr : ((x.start (.scheduled seed events)).2.store.scope s).choices.get? id = some r) :
    ∃ condition yes no, .choice id condition yes no ∈ Node.listing x.graph.nodes ∧
      r.Answers condition := by
  have htells := tells_start x seed events hd
  obtain ⟨-, -, -, hsound⟩ := start_scheduled x seed events
  obtain ⟨happened, _, _, hstarted, hmem, hsub⟩ :=
    started_of_holds x seed events hd (.choice hr)
  obtain ⟨m₁, hexec, -⟩ := hstarted.exec
  -- Where the record was made anew, the choice was run.
  obtain ⟨rfl, hbegins, hreaches, -, hnode, hsplit, -, -, -, -⟩ :=
    hexec.visits hstarted.ready hmem rfl
  rename_i frame n _ _ _ during _ _
  cases n with
  | action | loop => cases hbegins
  | choice id' condition yes no =>
    cases hbegins
    obtain ⟨c, r', hc, hverdict, hanswers⟩ := hnode.verdict
    have hcourse : .changed frame.top c ∈ (x.start (.scheduled seed events)).2.course := by
      refine hsub ?_
      rw [hsplit]
      exact List.mem_append_left _ (List.mem_append_right _ hc)
    obtain rfl := Option.some.inj (hr.symm.trans (htells.of_verdict hsound hverdict hcourse))
    exact ⟨condition, yes, no, hreaches.subset (Node.mem_subtree_self _), hanswers⟩

/-- **Branches.** What is on record of a node of a branch, in the scope of the choice or below it,
    shows that the choice has decided for this branch. -/
theorem decided_start {s t : ScopeId} {id condition : String} {yes no : List Node}
    (hlisted : .choice id condition yes no ∈ Node.listing x.graph.nodes)
    {r : ChoiceRecord}
    (hr : ((x.start (.scheduled seed events)).2.store.scope s).choices.get? id = some r)
    (ht : (x.start (.scheduled seed events)).2.store.InTree s t) {n : Node}
    (hn : n ∈ Node.listing yes ++ Node.listing no) {r' : Record}
    (hr' : ((x.start (.scheduled seed events)).2.store.scope t).Holds n.id r') :
    ∃ b, r.outcome = some b ∧ n ∈ Node.listing (if b then yes else no) := by
  have htells := tells_start x seed events hd
  obtain ⟨count, hnumbers⟩ := numbers_start x seed events
  obtain ⟨-, -, -, hsound⟩ := start_scheduled x seed events
  have hsub := Node.sublist_listing hlisted
  have hinside := List.mem_cons_of_mem (Node.choice id condition yes no) hn
  -- The run has come to the choice and to the node, so it has come from one to the other.
  obtain ⟨c, hid, hc⟩ := meets_start x seed events hd (.choice hr)
  obtain rfl := List.inj_on_of_nodup_map hd hc.mem_listing hlisted hid
  obtain ⟨n', hid', hn'⟩ := meets_start x seed events hd hr'
  obtain rfl := List.inj_on_of_nodup_map hd hn'.mem_listing (hsub.subset hinside) hid'
  obtain ⟨place, hplace⟩ := ht.place
  have hroot : (x.start (.scheduled seed events)).2.store.scopeAt? 0 [] = some 0 := rfl
  have hway := hc.through htells hsound hnumbers hinside hplace hroot hd hn'
  obtain ⟨b, used, hdecide, hb⟩ := hway.decided (Task.distinct_of_listed hd hlisted) hn
  cases hr.symm.trans (htells.of_verdict hsound rfl hdecide)
  exact ⟨b, rfl, hb⟩

end

/-! ### Audits -/

/-- Nothing is on record of some nodes, nor of those inside them, in a scope and in the scopes of
    iterations below it. -/
def Store.Untouched (store : Store) (s : ScopeId) (nodes : List Node) : Prop :=
  ∀ n ∈ Node.listing nodes, ∀ t, store.InTree s t → ∀ r, ¬ (store.scope t).Holds n.id r

/-- What the record of a choice in the scope `s` says of its condition and its branches. -/
structure ChoiceRecord.Audits (store : Store) (s : ScopeId) (condition : String)
    (yes no : List Node) (r : ChoiceRecord) : Prop where
  /-- There is either an outcome or an error. -/
  settled : r.outcome.isSome ↔ r.error = none
  /-- The texts on record are those of the references of the condition, and comparing them once more
      has the outcome on record. -/
  replays : ∀ b, r.outcome = some b → ∃ c, Comparison.parse condition = .ok c ∧
    (∀ token, r.used.contains token = true ↔
      c.lhs = .reference token ∨ c.rhs = .reference token) ∧
      c.replay r.used = some (.ok b)
  /-- No node of the other branch was run. -/
  other : ∀ b, r.outcome = some b → store.Untouched s (if b then no else yes)
  /-- With an error there is no outcome, and no node of either branch was run. -/
  failed : ∀ e, r.error = some e →
    r.outcome = none ∧ store.Untouched s yes ∧ store.Untouched s no

/-- The records of all choices can be audited. -/
def Execution.Audited (x : Execution) (store : Store) : Prop :=
  ∀ s id r, (store.scope s).choices.get? id = some r → ∃ condition yes no,
    .choice id condition yes no ∈ Node.listing x.graph.nodes ∧
      r.Audits store s condition yes no

/-- **Audits.** After the first run of a graph that was built, every record of a choice replays to
    its outcome, and nothing is on record of the branches that were not taken. -/
theorem audited_start {document : List Step} {ids rest : IdSource} (x : Execution)
    (h : Graph.build document ids = (.ok x.graph, rest)) (seed : Dict String Value)
    (events : List Event) : x.Audited (x.start (.scheduled seed events)).2.store := by
  intro s id r hr
  have hd := (Graph.build_ok h).2
  obtain ⟨condition, yes, no, hlisted, hanswers⟩ := answers_start x seed events hd hr
  refine ⟨condition, yes, no, hlisted, ?_⟩
  cases hanswers with
  | failed f =>
    -- A record of a node in a branch would show a decision, and there is none.
    have huntouched : ∀ n ∈ Node.listing yes ++ Node.listing no, ∀ t,
        (x.start (.scheduled seed events)).2.store.InTree s t → ∀ r',
          ¬ ((x.start (.scheduled seed events)).2.store.scope t).Holds n.id r' := by
      intro n hn t ht r' hr'
      obtain ⟨b, hb, -⟩ := decided_start x seed events hd hlisted hr ht hn hr'
      cases hb
    constructor
    case settled => simp
    case replays => exact fun b hb => by cases hb
    case other => exact fun b hb => by cases hb
    case failed =>
      exact fun _ _ => ⟨rfl, fun n hn => huntouched n (List.mem_append_left _ hn),
        fun n hn => huntouched n (List.mem_append_right _ hn)⟩
  | @decided c b used hparse hkeys hreplay =>
    constructor
    case settled => simp
    case replays =>
      intro b' hb
      cases hb
      exact ⟨c, hparse, hkeys, hreplay⟩
    case other =>
      intro b' hb n hn t ht r' hr'
      cases hb
      obtain ⟨hinside, hnot⟩ := Task.distinct_branches (Task.distinct_of_listed hd hlisted) hn
      obtain ⟨b', hb', hn'⟩ := decided_start x seed events hd hlisted hr ht hinside hr'
      cases hb'
      exact hnot hn'
    case failed => exact fun e he => by cases he

/-- The choice in this run has decided for its first branch, by the value that came for `$a`. -/
theorem audited_nestedRun : Graph.build Graph.nestedSteps .fresh = (.ok nestedRun.graph, ⟨5⟩) ∧
    ((nestedRun.start (.scheduled ∅ nestedEvents)).2.store.scope 0).choices.get? "c" =
      some { done := true, outcome := some true, used := .singleton "$a" "1" } ∧
    nestedRun.Audited (nestedRun.start (.scheduled ∅ nestedEvents)).2.store :=
  ⟨Graph.build_nestedSteps, by decide +kernel,
    audited_start nestedRun Graph.build_nestedSteps ∅ nestedEvents⟩

end Runbook
