import Runbook.Proofs.Graph.Build
import Runbook.Proofs.Run.Early
import Runbook.Proofs.Run.Histories
import Runbook.Proofs.Run.Tree

namespace Runbook

/-!
# Running a graph — exported variables

What a scope exports under a name is what was written there last: the element of the iteration that
the scope was opened for, or the export of an action that succeeded in the scope or below it.

* `Occurrence.writes`, `lastWritten` — the writes, read off from what has happened;
* `enclosing` — the scopes around a scope;
* `InOrder` — all along, scopes export what was written last;
* `Exec.inOrder` — executions without events keep to that;
* `itemOf_or_exportOf` — what is exported is an element or an output;
* `exportsInOrder_start` — first runs of graphs that were built.
-/

/-! ### Writes -/

namespace Node

/-- The name by which the body of a loop knows its element. -/
def itemName? : Node → Option String
  | loop _ _ itemAs _ => itemAs
  | _ => none

/-- The outputs that a node exports, by the names that it exports them to. -/
def exports : Node → Dict String String
  | action _ _ _ exports => exports
  | _ => ∅

/-- The node with an id. -/
def withId (all : List Node) (id : String) : Option Node := all.find? fun n => n.id == id

/-- Distinct ids find the node again. -/
theorem withId_of_mem {all : List Node} (hd : (all.map Node.id).Nodup) {n : Node} (h : n ∈ all) :
    withId all n.id = some n := by
  induction all with
  | nil => cases h
  | cons n' rest ih =>
    rw [List.map_cons, List.nodup_cons] at hd
    rw [withId, List.find?_cons]
    rcases List.mem_cons.1 h with rfl | h
    · rw [beq_self_eq_true]
    · have hne : n'.id ≠ n.id := fun heq => hd.1 (heq ▸ List.mem_map_of_mem h)
      rw [beq_false_of_ne hne]
      exact ih hd.2 h

/-- What is found by id is one of the nodes and has the id. -/
theorem mem_of_withId {all : List Node} {id : String} {n : Node} (h : withId all id = some n) :
    n ∈ all ∧ n.id = id :=
  ⟨List.mem_of_find?_eq_some h, by simpa using List.find?_some h⟩

end Node

/-- An output of a result: the whole payload, or a field if it is there. -/
def ActionResult.output? (r : ActionResult) (output : String) : Option Value :=
  if output = "result" then some (.scalar r.raw) else (r.fields.get? output).map .scalar

/-- The scopes around a scope, itself first.  They are read off from what has happened, the latest
    first: the scope of an iteration is put into the one that its loop runs in. -/
def enclosing : List Occurrence → ScopeId → List ScopeId
  | [], s => [s]
  | .changed p (.startIteration _ _ _ child) :: past, s =>
    if s = child then child :: enclosing past p else enclosing past s
  | _ :: past, s => enclosing past s

/-- What an occurrence writes into a scope under a name, after what has happened in the `past`.  An
    iteration that begins writes its element into its own scope.  An action that succeeds writes
    what it exports into its scope and the ones around. -/
def Occurrence.writes (all : List Node) (scope : ScopeId) (name : String) (past : List Occurrence) :
    Occurrence → Option Value
  | .changed _ (.startIteration id _ value child) =>
    if child = scope ∧ (Node.withId all id).bind Node.itemName? = some name then some value
    else none
  | .called s id _ (.ok result) =>
    if scope ∈ enclosing past s then
      (((Node.withId all id).map Node.exports).bind (·.get? name)).bind result.output?
    else none
  | _ => none

/-- The value that was written last into a scope under a name. -/
def lastWritten (all : List Node) (scope : ScopeId) (name : String) :
    List Occurrence → Option Value
  | [] => none
  | o :: past => (o.writes all scope name past).or (lastWritten all scope name past)

/-! ### What occurrences do to exports -/

/-- The value that a scope exports under a name after what has happened, the latest first. -/
def exportedAfter (seed : Dict String Value) (past : List Occurrence) (scope : ScopeId)
    (name : String) : Option Value :=
  (Scope.told seed past.reverse scope).exported.get? name

/-- The value that an occurrence exports to a scope under a name. -/
def Occurrence.news (scope : ScopeId) (name : String) : Occurrence → Option Value
  | changed s c => if s = scope then c.exports.get? name else none
  | published scopes values => if scope ∈ scopes then values.get? name else none
  | _ => none

/-- Publishing values `n` times exports what publishing them once does, unless `n` is 0. -/
theorem Scope.get?_exported_replicate (values : Dict String Value) (name : String) (n : Nat) :
    ∀ s : Scope, (((List.replicate n (Change.publish values)).foldl Scope.apply s).exported.get?
      name) = if n = 0 then s.exported.get? name
        else (values.get? name).or (s.exported.get? name) := by
  induction n with
  | zero => exact fun _ => rfl
  | succ n ih =>
    intro s
    rw [List.replicate_succ, List.foldl_cons, ih, Scope.exported_apply, Dict.get?_extend,
      if_neg (Nat.succ_ne_zero n)]
    -- Writing the same values once more changes nothing.
    show (if n = 0 then (values.get? name).or _ else
      (values.get? name).or ((values.get? name).or _)) = _
    rw [← Option.or_assoc, Option.or_self]
    exact ite_self _

variable {seed : Dict String Value} {all : List Node} {past : List Occurrence}

/-- Before anything has happened no scope has an export of its own. -/
theorem exportedAfter_nil (s : ScopeId) (name : String) : exportedAfter seed [] s name = none := by
  show (Scope.initial seed s).exported.get? name = none
  unfold Scope.initial
  split <;> rfl

/-- The newest occurrence counts, if it writes the name. -/
theorem exportedAfter_cons (o : Occurrence) (s : ScopeId) (name : String) :
    exportedAfter seed (o :: past) s name =
      (o.news s name).or (exportedAfter seed past s name) := by
  rw [exportedAfter, List.reverse_cons, Scope.told_append, List.flatMap_singleton]
  cases o with
  | changed t c =>
    rw [Occurrence.changesOf, Occurrence.news]
    by_cases ht : t = s
    · rw [if_pos ht, if_pos ht, List.foldl_cons, List.foldl_nil, Scope.exported_apply,
        Dict.get?_extend]
      rfl
    · rw [if_neg ht, if_neg ht]
      rfl
  | published scopes values =>
    rw [Occurrence.changesOf, Occurrence.news, Scope.get?_exported_replicate]
    by_cases hs : s ∈ scopes
    · rw [if_pos hs, if_neg (Nat.ne_of_gt (List.count_pos_iff.2 hs))]
      rfl
    · rw [if_neg hs, if_pos (List.count_eq_zero.2 hs)]
      rfl
  | _ => rfl

/-! ### Exports in order -/

/-- After everything that has happened, scopes export what was written last.  A write takes effect
    with the next step. -/
structure InOrder (seed : Dict String Value) (all : List Node) (past : List Occurrence) : Prop where
  after : ∀ later o earlier, past = later ++ o :: earlier → ∀ s name,
    exportedAfter seed (o :: earlier) s name = lastWritten all s name earlier
  /-- No write is left to take effect. -/
  now : ∀ s name, exportedAfter seed past s name = lastWritten all s name past

namespace InOrder

/-- No write is out of order where there is none. -/
theorem nil : InOrder seed all [] where
  after later o earlier h := by simp at h
  now := exportedAfter_nil

/-- A step that exports nothing new and writes nothing. -/
theorem step (h : InOrder seed all past) {o : Occurrence}
    (hnews : ∀ s name v, o.news s name = some v → exportedAfter seed past s name = some v)
    (hwrites : ∀ s name, o.writes all s name past = none) : InOrder seed all (o :: past) := by
  have hsame : ∀ s name, exportedAfter seed (o :: past) s name = lastWritten all s name past := by
    intro s name
    rw [exportedAfter_cons, ← h.now]
    cases hv : o.news s name with
    | none => rw [Option.none_or]
    | some v => rw [Option.some_or, hnews s name v hv]
  refine ⟨fun later o' earlier heq => ?_, fun s name => ?_⟩
  · cases later with
    | nil =>
      obtain ⟨rfl, rfl⟩ := List.cons.inj heq
      exact hsame
    | cons o'' later => exact h.after later o' earlier (List.cons.inj heq).2
  · rw [hsame, lastWritten, hwrites, Option.none_or]

/-- A step that writes, and the step in which the write takes effect. -/
theorem write (h : InOrder seed all past) {o o' : Occurrence}
    (hnews : ∀ s name, o.news s name = none)
    (hwrites : ∀ s name, o'.news s name = o.writes all s name past)
    (hwrites' : ∀ s name, o'.writes all s name (o :: past) = none) :
    InOrder seed all (o' :: o :: past) := by
  have hsame : ∀ s name, exportedAfter seed (o :: past) s name = lastWritten all s name past := by
    intro s name
    rw [exportedAfter_cons, hnews, Option.none_or, h.now]
  have hwritten : ∀ s name,
      exportedAfter seed (o' :: o :: past) s name = lastWritten all s name (o :: past) := by
    intro s name
    rw [exportedAfter_cons, hsame, hwrites, lastWritten]
  refine ⟨fun later o'' earlier heq => ?_, fun s name => ?_⟩
  · match later, heq with
    | [], heq =>
      obtain ⟨rfl, rfl⟩ := List.cons.inj heq
      exact hwritten
    | [_], heq =>
      obtain ⟨rfl, rfl⟩ := List.cons.inj (List.cons.inj heq).2
      exact hsame
    | _ :: _ :: later, heq =>
      exact h.after later o'' earlier (List.cons.inj (List.cons.inj heq).2).2
  · show _ = (o'.writes all s name (o :: past)).or _
    rw [hwritten, hwrites', Option.none_or]

end InOrder

/-- Where no iteration begins, the same scopes are around each other. -/
theorem enclosing_cons {o : Occurrence} (h : o.child? = none) :
    enclosing (o :: past) = enclosing past := by
  funext s
  cases o with
  | changed t c =>
    cases c with
    | startIteration => cases h
    | _ => rfl
  | _ => rfl

/-! ### Steps without events -/

/-- If nothing is to come, nothing happens while a node waits, but that its limit may elapse. -/
theorem Machine.awaitAll_quiet (stack : Stack) (site : Site) (limit : Nat)
    (tokens : List String) : ∀ {m : Machine}, m.schedule = [] →
      (m.awaitAll stack site limit tokens).2.schedule = [] ∧
        (m.awaitAll stack site limit tokens).2.journal = m.journal := by
  induction tokens with
  | nil => exact fun hquiet => ⟨hquiet, rfl⟩
  | cons token rest ih =>
    intro m hquiet
    have hawait : (m.await stack site limit token).2.schedule = [] ∧
        (m.await stack site limit token).2.journal = m.journal := by
      unfold Machine.await Machine.awaitDuring
      rw [hquiet]
      cases Machine.settled? _ stack token <;> exact ⟨rfl, rfl⟩
    rw [Machine.awaitAll]
    generalize m.await stack site limit token = waited at hawait
    obtain ⟨answer, m₁⟩ := waited
    cases answer with
    | error e => exact hawait
    | ok v => exact ⟨(ih hawait.1).1, (ih hawait.1).2.trans hawait.2⟩

variable {x : Execution} {frame : Frame} {m m' : Machine} {happened : List Occurrence}

/-- A wait without events on the schedule puts nothing on the journal. -/
theorem Awaited.quiet {id : String} {limit : Nat} {tokens : List String}
    {answer : Except WaitError (List Value)}
    (h : Awaited frame id limit tokens m happened answer m') (hquiet : m.schedule = []) :
    m'.schedule = [] ∧ m'.journal = m.journal := by
  have hwaited := Machine.awaitAll_quiet frame.stack ⟨id, frame.path⟩ limit tokens hquiet
  rwa [h.eq] at hwaited

/-- No event is to come to a machine, and its scopes export what was written last. -/
structure Machine.Orderly (seed : Dict String Value) (all : List Node) (m : Machine) : Prop where
  quiet : m.schedule = []
  order : InOrder seed all m.journal

/-- A stretch that leaves a machine orderly and begins no iteration. -/
structure Idles (seed : Dict String Value) (all : List Node) (m m' : Machine) : Prop where
  orderly : m'.Orderly seed all
  enclosing : enclosing m'.journal = enclosing m.journal

namespace Idles

/-- Doing nothing is idle. -/
theorem refl (h : m.Orderly seed all) : Idles seed all m m := ⟨h, rfl⟩

/-- A change that exports nothing new. -/
theorem andChange {m₁ : Machine} (h : Idles seed all m m₁) (s : ScopeId) {c : Change}
    (hc : (Occurrence.changed s c).child? = none)
    (hexports : ∀ name v, c.exports.get? name = some v →
      exportedAfter seed m₁.journal s name = some v) : Idles seed all m (m₁.change s c) := by
  refine ⟨⟨h.orderly.quiet, h.orderly.order.step (fun t name v hv => ?_) fun t name => ?_⟩,
    (enclosing_cons hc).trans h.enclosing⟩
  · rw [Occurrence.news] at hv
    split at hv
    case isTrue ht => exact ht ▸ hexports name v hv
    case isFalse => cases hv
  · cases c with
    | startIteration => cases hc
    | _ => rfl

/-- A change that exports nothing. -/
theorem andSilent {m₁ : Machine} (h : Idles seed all m m₁) (s : ScopeId) {c : Change}
    (hc : (Occurrence.changed s c).child? = none) (hexports : c.exports = ∅) :
    Idles seed all m (m₁.change s c) := by
  refine h.andChange s hc fun name v hv => ?_
  rw [hexports] at hv
  cases hv

/-- A call that fails. -/
theorem andFailure {m₁ m₂ : Machine} (h : Idles seed all m m₁) {id : String} {c : ActionCall}
    {e : ActionError} {heard : List Occurrence}
    (hcall : Called x frame id c m₁ (.error e) heard m₂) : Idles seed all m m₂ := by
  rw [hcall.quiet h.orderly.quiet]
  refine ⟨⟨h.orderly.quiet, ?_⟩, (enclosing_cons rfl).trans h.enclosing⟩
  exact h.orderly.order.step (fun _ _ _ hv => by cases hv) fun _ _ => rfl

end Idles

/-- A change that exports nothing, and a wait after it. -/
theorem Awaited.idles {c : Change} {id : String} {limit : Nat} {tokens : List String}
    {answer : Except WaitError (List Value)}
    (h : Awaited frame id limit tokens (m.change frame.top c) happened answer m')
    (ho : m.Orderly seed all) (hc : (Occurrence.changed frame.top c).child? = none)
    (hexports : c.exports = ∅) : Idles seed all m m' := by
  have hchange := (Idles.refl ho).andSilent frame.top hc hexports
  obtain ⟨hschedule, hjournal⟩ := h.quiet ho.quiet
  refine ⟨⟨hschedule, ?_⟩, ?_⟩
  · rw [hjournal]
    exact hchange.orderly.order
  · rw [hjournal]
    exact hchange.enclosing

/-- An export is the output that it is declared as, if the result has it. -/
theorem get?_exportsOf (declared : Dict String String) (result : ActionResult) (name : String) :
    (Run.exportsOf declared result).get? name = (declared.get? name).bind result.output? :=
  Dict.get?_filterMap _ declared name

/-- A call that succeeds, and the broadcast of its exports. -/
theorem Idles.andSuccess {m₁ m₂ : Machine} (h : Idles seed all m m₁)
    (hd : (all.map Node.id).Nodup) {id urn : String} {params exports : Dict String String}
    (hn : .action id urn params exports ∈ all)
    (hframe : Runbook.enclosing m₁.journal frame.top = frame.stack.scopes) {c : ActionCall}
    {result : ActionResult} {heard : List Occurrence}
    (hcall : Called x frame id c m₁ (.ok result) heard m₂) :
    Idles seed all m (m₂.publish frame.stack (Run.exportsOf exports result)) ∧
      ∀ name v, (Run.exportsOf exports result).get? name = some v →
        exportedAfter seed (m₂.publish frame.stack (Run.exportsOf exports result)).journal
          frame.top name = some v := by
  have hquiet := hcall.quiet h.orderly.quiet
  have hschedule : m₂.schedule = [] := by
    rw [hquiet]
    exact h.orderly.quiet
  have hjournal : m₂.journal = .called frame.top id c (.ok result) :: m₁.journal := by
    rw [hquiet]
    rfl
  -- A call that succeeds writes its exports to all scopes that its own one lies in.
  have hwrites : ∀ s name, (Occurrence.called frame.top id c (.ok result)).writes all s name
      m₁.journal = if s ∈ frame.stack.scopes then (Run.exportsOf exports result).get? name
        else none := by
    intro s name
    have hid : Node.withId all id = some (.action id urn params exports) :=
      Node.withId_of_mem hd hn
    rw [Occurrence.writes, hframe, hid, get?_exportsOf]
    rfl
  have hcalled : Runbook.enclosing m₂.journal = Runbook.enclosing m.journal := by
    rw [hjournal]
    exact (enclosing_cons rfl).trans h.enclosing
  unfold Machine.publish
  -- If nothing is exported, nothing is published, and the call has written nothing.
  by_cases hempty : (Run.exportsOf exports result).isEmpty
  · rw [if_pos hempty]
    have hnone : Run.exportsOf exports result = ∅ := Dict.ext (List.isEmpty_iff.1 hempty)
    refine ⟨⟨⟨hschedule, ?_⟩, hcalled⟩, fun name v hv => ?_⟩
    · rw [hjournal]
      refine h.orderly.order.step (fun _ _ _ hv => by cases hv) fun s name => ?_
      rw [hwrites, hnone]
      exact ite_self _
    · rw [hnone] at hv
      cases hv
  · rw [if_neg hempty]
    refine ⟨⟨⟨hschedule, ?_⟩, (enclosing_cons rfl).trans hcalled⟩, fun name v hv => ?_⟩
    · show InOrder seed all (.published _ _ :: m₂.journal)
      rw [hjournal]
      exact h.orderly.order.write (fun _ _ => rfl) (fun s name => (hwrites s name).symm)
        fun _ _ => rfl
    · show exportedAfter seed (.published _ _ :: _) frame.top name = _
      have htop : frame.top ∈ frame.stack.scopes := List.mem_cons_self
      rw [exportedAfter_cons, Occurrence.news, if_pos htop, hv, Option.some_or]

/-- Without events an action exports only what its call answers. -/
theorem Acts.idles {id urn : String} {params exports : Dict String String} {outcome : Outcome}
    (h : Acts x frame id urn params exports m happened outcome m') (ho : m.Orderly seed all)
    (hd : (all.map Node.id).Nodup) (hn : .action id urn params exports ∈ all)
    (hframe : enclosing m.journal frame.top = frame.stack.scopes) : Idles seed all m m' := by
  cases h with
  | starved hw => exact (hw.idles ho rfl rfl).andSilent _ rfl rfl
  | failed hw hcall =>
    exact (((hw.idles ho rfl rfl).andSilent _ rfl rfl).andFailure hcall).andSilent _ rfl rfl
  | @done _ _ values _ _ result hw hcall =>
    have hparams := (hw.idles ho rfl rfl).andSilent frame.top
      (c := .recordParams id (inputsOf params values) true) rfl rfl
    have hframe' := hframe
    rw [← hparams.enclosing] at hframe'
    -- The completion exports once more what was broadcast.
    obtain ⟨hsuccess, hknown⟩ := hparams.andSuccess hd hn hframe' hcall
    exact hsuccess.andChange frame.top rfl hknown

/-- Without events deciding exports nothing. -/
theorem Decides.idles {id condition : String} {answer : Except Failure Bool}
    (h : Decides x frame id condition m happened answer m') (ho : m.Orderly seed all) :
    Idles seed all m m' := by
  cases h with
  | malformed =>
    have hstart := (Idles.refl ho).andSilent frame.top (c := .startChoice id) rfl rfl
    exact hstart.andSilent _ rfl rfl
  | starved _ hw | undecidable _ hw | decided _ hw =>
    exact (hw.idles ho rfl rfl).andSilent _ rfl rfl

/-! ### Iterations -/

/-- The scope of an iteration is put into the one that its loop runs in, and nothing else moves. -/
theorem enclosing_openIteration (m : Machine) (frame : Frame) (id : String)
    (itemAs : Option String) (index : Nat) (value : Value) (s : ScopeId) :
    enclosing (m.openIteration frame id itemAs index value).journal s =
      if s = m.store.size then m.store.size :: enclosing m.journal frame.top
      else enclosing m.journal s := by
  cases itemAs <;> rfl

/-- The element of an iteration is written into its scope alone. -/
theorem Machine.Orderly.openIteration {id elements : String} {itemAs : Option String}
    {body : List Node} (ho : m.Orderly seed all) (hd : (all.map Node.id).Nodup)
    (hn : .loop id elements itemAs body ∈ all) (frame : Frame) (index : Nat) (value : Value) :
    (m.openIteration frame id itemAs index value).Orderly seed all := by
  have hid : Node.withId all id = some (.loop id elements itemAs body) := Node.withId_of_mem hd hn
  have hopened : InOrder seed all (.opened m.store.size :: m.journal) :=
    ho.order.step (fun _ _ _ hv => by cases hv) fun _ _ => rfl
  have hwrites : ∀ s name past,
      (Occurrence.changed frame.top (.startIteration id index value m.store.size)).writes all s name
        past = if m.store.size = s ∧ itemAs = some name then some value else none := by
    intro s name past
    rw [Occurrence.writes, hid]
    rfl
  refine ⟨by cases itemAs <;> exact ho.quiet, ?_⟩
  cases itemAs with
  | none =>
    refine hopened.step (fun s name v hv => ?_) fun s name => ?_
    · rw [Occurrence.news] at hv
      split at hv <;> cases hv
    · rw [hwrites, if_neg (by simp)]
  | some item =>
    refine hopened.write (fun s name => ?_) (fun s name => ?_) fun _ _ => rfl
    · rw [Occurrence.news]
      split <;> rfl
    · rw [hwrites, Occurrence.news]
      show (if _ then (Dict.singleton item value).get? name else none) = _
      rw [Dict.get?_singleton]
      by_cases hs : m.store.size = s <;> simp [hs, eq_comm]

/-! ### Executions -/

/-- The nodes of a task are among some nodes. -/
def Task.Within (all : List Node) : Task → Prop
  | nodes list => Node.listing list ⊆ all
  | node n => n.subtree ⊆ all
  | rounds id itemAs body _ _ | round id itemAs body _ _ =>
    (∃ elements, .loop id elements itemAs body ∈ all) ∧ Node.listing body ⊆ all

/-- A stretch that leaves a machine orderly and puts no scope into an older one. -/
structure Keeps (seed : Dict String Value) (all : List Node) (m m' : Machine) : Prop where
  orderly : m'.Orderly seed all
  enclosing : ∀ s < m.store.size, enclosing m'.journal s = enclosing m.journal s

namespace Keeps

variable {m₁ : Machine}

/-- Nothing happens, and nothing is exported. -/
theorem refl (h : m.Orderly seed all) : Keeps seed all m m := ⟨h, fun _ _ => rfl⟩

/-- Stretches in a row, if scopes are only added. -/
theorem trans (h : Keeps seed all m m₁) (h' : Keeps seed all m₁ m')
    (hle : m.store.size ≤ m₁.store.size) : Keeps seed all m m' :=
  ⟨h'.orderly, fun s hs =>
    (h'.enclosing s (Nat.lt_of_lt_of_le hs hle)).trans (h.enclosing s hs)⟩

/-- An idle stretch keeps what scopes export. -/
theorem of_idles (h : Idles seed all m m') : Keeps seed all m m' :=
  ⟨h.orderly, fun s _ => congrFun h.enclosing s⟩

/-- A change that exports nothing. -/
theorem andSilent (h : Keeps seed all m m₁) (s : ScopeId) {c : Change}
    (hc : (Occurrence.changed s c).child? = none) (hexports : c.exports = ∅) :
    Keeps seed all m (m₁.change s c) := by
  have hchange := (Idles.refl h.orderly).andSilent s hc hexports
  exact ⟨hchange.orderly, fun t ht =>
    (congrFun hchange.enclosing t).trans (h.enclosing t ht)⟩

end Keeps

/-- An iteration whose body leaves the machine orderly does so itself. -/
theorem Machine.Orderly.round {id : String} {itemAs : Option String} {body : List Node}
    {index : Nat} {value : Value} (ho : m.Orderly seed all) (hm : m.Ready frame)
    (hd : (all.map Node.id).Nodup) (hwithin : (Task.round id itemAs body index value).Within all)
    (hframe : enclosing m.journal frame.top = frame.stack.scopes)
    (hbody : (m.openIteration frame id itemAs index value).Ready
        (frame.inner id index m.store.size) → (Task.nodes body).Within all →
      (m.openIteration frame id itemAs index value).Orderly seed all →
      enclosing (m.openIteration frame id itemAs index value).journal m.store.size =
        m.store.size :: frame.stack.scopes →
      Keeps seed all (m.openIteration frame id itemAs index value) m') : Keeps seed all m m' := by
  obtain ⟨⟨elements, hn⟩, hnodes⟩ := hwithin
  obtain ⟨-, hready⟩ := extends_openIteration (fun _ _ => .ok {}) hm id itemAs index value
  have hinner : enclosing (m.openIteration frame id itemAs index value).journal m.store.size =
      m.store.size :: frame.stack.scopes := by
    rw [enclosing_openIteration, if_pos rfl, hframe]
  have hopen := ho.openIteration hd hn frame index value
  have hkeeps : Keeps seed all m (m.openIteration frame id itemAs index value) :=
    ⟨hopen, fun s hs => by rw [enclosing_openIteration, if_neg (Nat.ne_of_lt hs)]⟩
  refine hkeeps.trans (hbody hready hnodes hopen hinner) ?_
  rw [size_openIteration]
  exact Nat.le_succ _

/-- **Executions.** They leave scopes exporting what was written last. -/
theorem Exec.inOrder {task : Task} {outcome : Outcome}
    (h : Exec x frame task m happened outcome m') (hm : m.Ready frame)
    (hd : (all.map Node.id).Nodup) (hwithin : task.Within all) (ho : m.Orderly seed all)
    (hframe : enclosing m.journal frame.top = frame.stack.scopes) : Keeps seed all m m' := by
  induction h with
  | nil | stopped | noRounds => exact .refl ho
  | failed _ _ ih =>
    exact ih hm (List.Subset.trans (List.subset_append_left _ _) hwithin) ho hframe
  | cons _ h _ ih ih' =>
    have hext := h.extends hm
    have hfirst := ih hm (List.Subset.trans (List.subset_append_left _ _) hwithin) ho hframe
    exact hfirst.trans (ih' (hext.ready hm)
      (List.Subset.trans (List.subset_append_right _ _) hwithin) hfirst.orderly
      ((hfirst.enclosing _ hm.top).trans hframe)) hext.size_le
  | action h => exact .of_idles (h.idles ho hd (hwithin List.mem_cons_self) hframe)
  | undecided h => exact .of_idles (h.idles ho)
  | decided h _ ih =>
    have hext := h.extends hm
    have hfirst := Keeps.of_idles (h.idles ho)
    refine hfirst.trans (ih (hext.ready hm) (fun n hn => hwithin ?_) hfirst.orderly
      ((hfirst.enclosing _ hm.top).trans hframe)) hext.size_le
    exact List.mem_cons_of_mem _ (Node.listing_branch _ _ _ hn)
  | starved hw => exact .of_idles ((hw.idles ho rfl rfl).andSilent _ rfl rfl)
  -- Until its elements have come, a loop writes nothing.
  | broken hw _ ih =>
    have hext := hw.extends_after x.backend hm
    have hstart := Keeps.of_idles (hw.idles ho rfl rfl)
    exact hstart.trans (ih (hext.ready hm)
      ⟨⟨_, hwithin List.mem_cons_self⟩, List.Subset.trans (List.subset_cons_self _ _) hwithin⟩
      hstart.orderly ((hstart.enclosing _ hm.top).trans hframe)) hext.size_le
  | finished hw _ ih =>
    have hext := hw.extends_after x.backend hm
    have hstart := Keeps.of_idles (hw.idles ho rfl rfl)
    exact (hstart.trans (ih (hext.ready hm)
      ⟨⟨_, hwithin List.mem_cons_self⟩, List.Subset.trans (List.subset_cons_self _ _) hwithin⟩
      hstart.orderly ((hstart.enclosing _ hm.top).trans hframe)) hext.size_le).andSilent _ rfl rfl
  | lastRound _ ih => exact ih hm hwithin ho hframe
  | nextRound h _ ih ih' =>
    have hext := h.extends hm
    have hfirst := ih hm hwithin ho hframe
    exact hfirst.trans (ih' (hext.ready hm) hwithin hfirst.orderly
      ((hfirst.enclosing _ hm.top).trans hframe)) hext.size_le
  | refused => exact (Keeps.refl ho).andSilent _ rfl rfl
  | completed _ _ ih | passed _ _ _ _ ih | interrupted _ _ ih =>
    exact (ho.round hm hd hwithin hframe ih).andSilent _ rfl rfl
  | halted _ _ _ _ ih =>
    exact ((ho.round hm hd hwithin hframe ih).andSilent _ rfl rfl).andSilent _ rfl rfl

/-! ### Where values come from -/

/-- A value that was written last was written at some time. -/
theorem exists_writes {s : ScopeId} {name : String} {v : Value}
    (h : lastWritten all s name past = some v) :
    ∃ later o earlier, past = later ++ o :: earlier ∧ o.writes all s name earlier = some v := by
  induction past with
  | nil => cases h
  | cons o earlier ih =>
    rw [lastWritten] at h
    rcases Option.or_eq_some_iff.1 h with h | ⟨-, h⟩
    · exact ⟨[], o, earlier, rfl, h⟩
    · obtain ⟨later, o', earlier', rfl, hw⟩ := ih h
      exact ⟨o :: later, o', earlier', rfl, hw⟩

/-- Some iteration in a scope knows its element by a name. -/
def ItemOf (all : List Node) (past : List Occurrence) (s : ScopeId) (name : String) : Prop :=
  ∃ p id elements body index value, .loop id elements (some name) body ∈ all ∧
    .changed p (.startIteration id index value s) ∈ past

/-- Some action has succeeded in a scope, or below it, that exports an output to a name. -/
def ExportOf (all : List Node) (past : List Occurrence) (s : ScopeId) (name : String) : Prop :=
  ∃ later t id call result earlier urn params exports output v,
    past = later ++ .called t id call (.ok result) :: earlier ∧ s ∈ enclosing earlier t ∧
      .action id urn params exports ∈ all ∧ exports.get? name = some output ∧
      result.output? output = some v

/-- An item stays the item of its iteration as more happens. -/
theorem ItemOf.cons {s : ScopeId} {name : String} (h : ItemOf all past s name) (o : Occurrence) :
    ItemOf all (o :: past) s name := by
  obtain ⟨p, id, elements, body, index, value, hn, hmem⟩ := h
  exact ⟨p, id, elements, body, index, value, hn, List.mem_cons_of_mem _ hmem⟩

/-- An export stays the export of its action as more happens. -/
theorem ExportOf.cons {s : ScopeId} {name : String} (h : ExportOf all past s name)
    (o : Occurrence) : ExportOf all (o :: past) s name := by
  obtain ⟨later, t, id, call, result, earlier, urn, params, exports, output, v, rfl, hrest⟩ := h
  exact ⟨o :: later, t, id, call, result, earlier, urn, params, exports, output, v, rfl, hrest⟩

/-- What writes is the beginning of an iteration in the scope itself, or an action that succeeds in
    the scope or below it. -/
theorem Occurrence.of_writes {s : ScopeId} {name : String} {v : Value} {o : Occurrence}
    (h : o.writes all s name past = some v) :
    (∃ p id elements body index, o = .changed p (.startIteration id index v s) ∧
      .loop id elements (some name) body ∈ all) ∨
    ∃ t id call result urn params exports output, o = .called t id call (.ok result) ∧
      s ∈ enclosing past t ∧ .action id urn params exports ∈ all ∧
      exports.get? name = some output ∧ result.output? output = some v := by
  cases o with
  | changed p c =>
    cases c with
    | startIteration id index value child =>
      rw [writes] at h
      split at h
      case isFalse => cases h
      case isTrue hitem =>
        obtain ⟨rfl, hitem⟩ := hitem
        -- The loop of that id says which name the element gets.
        obtain ⟨n, hid, hname⟩ := Option.bind_eq_some_iff.1 hitem
        obtain ⟨hn, rfl⟩ := Node.mem_of_withId hid
        cases n with
        | loop id elements itemAs body =>
          obtain rfl : itemAs = some name := hname
          obtain rfl : value = v := Option.some.inj h
          exact .inl ⟨p, id, elements, body, index, rfl, hn⟩
        | action | choice => cases hname
    | _ => cases h
  | called t id call answer =>
    cases answer with
    | error e => cases h
    | ok result =>
      rw [writes] at h
      split at h
      case isFalse => cases h
      case isTrue hs =>
        -- The action of that id says which output goes by the name.
        obtain ⟨output, houtput, hv⟩ := Option.bind_eq_some_iff.1 h
        obtain ⟨exports, hexports, hdeclared⟩ := Option.bind_eq_some_iff.1 houtput
        obtain ⟨n, hid, rfl⟩ := Option.map_eq_some_iff.1 hexports
        obtain ⟨hn, rfl⟩ := Node.mem_of_withId hid
        cases n with
        | action id urn params exports =>
          exact .inr ⟨t, id, call, result, urn, params, exports, output, rfl, hs, hn, hdeclared, hv⟩
        | choice | loop => cases hdeclared
  | _ => cases h

/-- Nothing is exported but the elements of iterations to their own scopes, and outputs. -/
theorem itemOf_or_exportOf {s : ScopeId} {name : String} {v : Value}
    (h : lastWritten all s name past = some v) :
    ItemOf all past s name ∨ ExportOf all past s name := by
  obtain ⟨later, o, earlier, rfl, hw⟩ := exists_writes h
  rcases Occurrence.of_writes hw with ⟨p, id, elements, body, index, rfl, hn⟩ |
    ⟨t, id, call, result, urn, params, exports, output, rfl, hrest⟩
  · exact .inl ⟨p, id, elements, body, index, v, hn,
      List.mem_append_right _ List.mem_cons_self⟩
  · exact .inr ⟨later, t, id, call, result, earlier, urn, params, exports, output, v, rfl, hrest⟩

/-! ### First runs -/

/-- All along the first run of a graph, to which no events come, scopes export what was written
    there last. -/
structure Execution.ExportsInOrder (x : Execution) (seed : Dict String Value) : Prop where
  /-- Before the run, nothing is exported. -/
  before : ∀ s name, ((Machine.scheduled seed []).store.scope s).exported.get? name = none
  /-- After every step, scopes export what was written before it. -/
  during : ∀ later o past, (x.start (.scheduled seed [])).2.journal = later ++ o :: past →
    ∀ s name, exportedAfter seed (o :: past) s name =
      lastWritten (Node.listing x.graph.nodes) s name past
  /-- Once the run is over, no write is left to take effect. -/
  after : ∀ s name, ((x.start (.scheduled seed [])).2.store.scope s).exported.get? name =
    lastWritten (Node.listing x.graph.nodes) s name (x.start (.scheduled seed [])).2.journal
  /-- A scope exports nothing but the element of its own iteration, to the name by which the loop
      knows it, and outputs of actions that have succeeded in the scope or below it. -/
  sources : ∀ later past, (x.start (.scheduled seed [])).2.journal = later ++ past →
    ∀ s name v, exportedAfter seed past s name = some v →
      ItemOf (Node.listing x.graph.nodes) past s name ∨
        ExportOf (Node.listing x.graph.nodes) past s name

/-- **Exported variables.** They follow the order of the writes. -/
theorem exportsInOrder_start (x : Execution) {document : List Step} {ids rest : IdSource}
    (h : Graph.build document ids = (.ok x.graph, rest)) (seed : Dict String Value) :
    x.ExportsInOrder seed := by
  have hd := (Graph.build_ok h).2
  obtain ⟨happened, hstarted, -, hsound⟩ := start_scheduled x seed []
  obtain ⟨m₁, hexec, hend⟩ := hstarted.exec
  have hfirst : (Machine.scheduled seed []).Orderly seed (Node.listing x.graph.nodes) :=
    ⟨rfl, .nil⟩
  have hrun := hexec.inOrder hstarted.ready hd (List.Subset.refl _) hfirst rfl
  -- Closing the scope of the whole runbook exports nothing.
  have hclosed := hrun.andSilent (Machine.scheduled seed []).root
    (c := Outcome.closing (x.start (.scheduled seed [])).1)
    (by rcases (x.start (.scheduled seed [])).1 with f | ⟨⟩ <;> rfl)
    (by rcases (x.start (.scheduled seed [])).1 with f | ⟨⟩ <;> rfl)
  rw [← hend] at hclosed
  have horder := hclosed.orderly.order
  constructor
  case before =>
    intro s name
    rw [(Machine.sound_scheduled x.backend seed []).told]
    exact exportedAfter_nil s name
  case during => exact horder.after
  case after =>
    intro s name
    rw [hsound.told, Machine.course]
    exact horder.now s name
  case sources =>
    intro later past heq s name v hv
    cases past with
    | nil =>
      rw [exportedAfter_nil] at hv
      cases hv
    | cons o past =>
      rw [horder.after later o past heq] at hv
      exact (itemOf_or_exportOf hv).imp (·.cons o) (·.cons o)

/-- A loop whose action exports to the name of the element, and an output that may be missing. -/
def shadowingSteps : List Step :=
  [{ Step.forEach "@alert:l" with
      itemAs := some "$x"
      body := [{ Step.execute "u" with
        exports := (Dict.singleton "x" "result").insert "y" "count" }] }]

/-- A run of `shadowingSteps`. Only the first call puts out a count. -/
def shadowingRun : Execution where
  graph := ⟨[.loop "1" "@alert:l" (some "x")
    [.action "2" "u" ∅ ((Dict.singleton "x" "result").insert "y" "count")]]⟩
  backend before _ :=
    if before.isEmpty then .ok { raw := "r", fields := .singleton "count" "7" }
    else .ok { raw := "s" }

def shadowingSeed : Dict String Value := .singleton "l" (.list ["p", "q"])

/-- `exportsInOrder_start` for a run in which an action exports under the name of the element. -/
theorem exportsInOrder_shadowingRun :
    Graph.build shadowingSteps .fresh = (.ok shadowingRun.graph, ⟨3⟩) ∧
      shadowingRun.ExportsInOrder shadowingSeed :=
  have hbuild : Graph.build shadowingSteps .fresh = (.ok shadowingRun.graph, ⟨3⟩) := rfl
  ⟨hbuild, exportsInOrder_start shadowingRun hbuild shadowingSeed⟩

/-- The outputs take the place of the elements. The count of the first iteration is not written into
    the scope of the second, but into the one around both. -/
example :
    ([0, 1, 2].map fun s =>
      ((shadowingRun.start (.scheduled shadowingSeed [])).2.store.scope s).exported.entries) =
      [[("x", .scalar "s"), ("y", .scalar "7")], [("x", .scalar "r"), ("y", .scalar "7")],
        [("x", .scalar "s")]] := by
  decide +kernel

end Runbook
