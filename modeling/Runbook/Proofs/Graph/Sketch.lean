import Runbook.Graph.Build
import Runbook.Proofs.Dict
import Runbook.Proofs.Graph.Arena

namespace Runbook

/-!
# Runbook graphs — what is laid out, as a tree

`Graph.lay` fills an arena slot by slot: a node is `vacant` until the nodes inside it are laid out,
and `next` is patched once the node that runs next has a slot.  Proofs about documents follow the
tree instead, which this file draws next to the arena:

* `Sketch` — a draft that keeps the ids that were claimed, and no slots;
* `node`, `chain` — what `place` and `placeAll` do to a sketch, with the tree for an answer;
* `Tracks` — a draft with slots and a sketch agree on the ids to come, the ids claimed and the
  issues found;
* `lays_place`, `lays_placeAll` — **the invariant of the builder**: whatever was laid out
  before, laying out steps leaves it alone but for one `next` link, and appends the entries of the
  tree, patched links included;
* `layout_eq`, `build_eq` — a document has the layout of the tree that is drawn of it.
-/

namespace Graph

/-! ### Drawing a tree -/

/-- A draft that keeps the ids of the visited steps. -/
abbrev Sketch := Draft (List String)

/-- Claims an id. -/
def claimId (id : String) (location : Location) : Building (List String) Unit := do
  let d ← get
  if d.seen.contains id then reportRepeated id location
  else set { d with seen := id :: d.seen }

mutual

/-- The node of a step. -/
def node (location : Location) : Step → Building (List String) Node
  | ⟨id, kind, urn, params, exports, condition, onTrue, onFalse, iterateOn, itemAs, body⟩ => do
    let id ← chooseId id
    claimId id location
    let kind := kind.getD Step.executeKind
    if kind = Step.executeKind then
      let urn := trimmed urn
      checkAction id location urn params
      pure (.action id urn params exports)
    else if kind = Step.ifKind then
      let condition := condition.getD ""
      checkCondition id location condition
      let yes ← chain (location.key "onTrue") 0 onTrue
      let no ← chain (location.key "onFalse") 0 onFalse
      pure (.choice id condition yes no)
    else if kind = Step.forKind then
      let elements := trimmed iterateOn
      checkElements id location elements
      let body ← chain (location.key "body") 0 body
      pure (.loop id elements (itemName? itemAs) body)
    else
      reportKind id location kind
      pure (.action id "" ∅ ∅)

/-- The nodes of steps that are written one after the other, the first at `position`. -/
def chain (location : Location) (position : Nat) : List Step → Building (List String) (List Node)
  | [] => pure []
  | s :: rest => do
    let n ← node (location.index position) s
    let nodes ← chain location (position + 1) rest
    pure (n :: nodes)

end

/-- The nodes of a document and what was found on the way. -/
def draft (document : List Step) (ids : IdSource) : List Node × Sketch :=
  (chain .root 0 document).run ⟨ids, [], []⟩

/-- The second part is run on what the first has left. -/
theorem run_bind {κ α β : Type} (r : Building κ α) (f : α → Building κ β) (d : Draft κ) :
    (r >>= f).run d = (f (r.run d).1).run (r.run d).2 := rfl

/-! ### Checks -/

/-- A part of building that only reports, and the same whatever is kept of the steps. -/
def Reports (r : ∀ {κ : Type}, Building κ Unit) : Prop :=
  ∃ new, ∀ {κ : Type} (d : Draft κ), r.run d = ((), { d with found := new ++ d.found })

/-- A part that does nothing reports nothing. -/
theorem reports_pure : Reports (pure ()) := ⟨[], fun _ => rfl⟩

/-- `report` adds one issue, whatever is kept of the steps. -/
theorem reports_report (id : String) (issue : Issue) : Reports (report id issue) :=
  ⟨[{ issue with nodeId := some id }], fun _ => rfl⟩

/-- The issues of two parts in a row. -/
theorem Reports.bind {r r' : ∀ {κ : Type}, Building κ Unit} (h : Reports r) (h' : Reports r') :
    Reports (r >>= fun _ => r') := by
  obtain ⟨new, hnew⟩ := h
  obtain ⟨new', hnew'⟩ := h'
  refine ⟨new' ++ new, fun d => ?_⟩
  rw [run_bind, hnew, hnew', List.append_assoc]

/-- The issues of the entries of a list, one after the other. -/
theorem reports_forM {α : Type} {f : ∀ {κ : Type}, α → Building κ Unit}
    (h : ∀ a, Reports (f a)) (l : List α) : Reports (l.forM f) := by
  induction l with
  | nil => exact reports_pure
  | cons a l ih => exact (h a).bind ih

/-- `checkReference` only reports. -/
theorem reports_checkReference (id : String) (location : Location) (token : String) :
    Reports (checkReference id location token) := by
  unfold checkReference
  split
  · exact reports_report _ _
  · exact reports_pure

/-- `checkAction` only reports. -/
theorem reports_checkAction (id : String) (location : Location) (urn : String)
    (params : Dict String String) : Reports (checkAction id location urn params) := by
  have hparams : Reports (params.entries.forM fun p =>
      checkReference id ((location.key "params").key p.1) p.2) :=
    reports_forM (fun _ => reports_checkReference _ _ _) _
  unfold checkAction
  split
  · exact (reports_report _ _).bind hparams
  · exact reports_pure.bind hparams

/-- `checkCondition` only reports. -/
theorem reports_checkCondition (id : String) (location : Location) (condition : String) :
    Reports (checkCondition id location condition) := by
  unfold checkCondition
  split
  · exact reports_report _ _
  · split
    · exact reports_forM (fun _ => reports_checkReference _ _ _) _
    · exact reports_report _ _

/-- `checkElements` only reports. -/
theorem reports_checkElements (id : String) (location : Location) (elements : String) :
    Reports (checkElements id location elements) := by
  unfold checkElements
  split
  · exact reports_report _ _
  · split
    · exact reports_checkReference _ _ _
    · exact reports_report _ _

/-! ### Slots and the ids that were claimed -/

/-- A draft with slots and a sketch agree on the ids to come, the ids claimed and the issues found,
    and every id leads to the first slot that has it. -/
structure Tracks (b : Draft Slots) (d : Sketch) : Prop where
  ids : b.ids = d.ids
  found : b.found = d.found
  /-- The ids that were claimed have a position. -/
  claimed : ∀ id, id ∈ d.seen ↔ (b.seen.byId.get? id).isSome
  /-- The position of an id is that of the first slot that has it. -/
  byId : ∀ id, b.seen.byId.get? id = Arena.find? b.seen.nodes id

variable {b b' : Draft Slots} {d d' : Sketch}

/-- Before the first step there are no slots and no ids. -/
theorem tracks_start (ids : IdSource) : Tracks ⟨ids, {}, []⟩ ⟨ids, [], []⟩ :=
  ⟨rfl, rfl, fun _ => by simp, fun _ => rfl⟩

/-- A draft tracks a sketch, `new` being laid out after `a`. -/
structure Lays (a new : Arena) (b : Draft Slots) (d : Sketch) : Prop where
  nodes : b.seen.nodes = a ++ new
  tracks : Tracks b d

variable {a new new' : Arena}

/-- Two stretches in a row lay out the slots of both. -/
theorem Lays.append (h : Lays a new b d) (h' : Lays b.seen.nodes new' b' d') :
    Lays a (new ++ new') b' d' :=
  ⟨by rw [h'.nodes, h.nodes, List.append_assoc], h'.tracks⟩

/-- What a check reports is the same for both, and the slots stay as they are. -/
theorem Lays.reports (h : Lays a new b d) {r : ∀ {κ : Type}, Building κ Unit} (hr : Reports r) :
    Lays a new (r.run b).2 (r.run d).2 := by
  obtain ⟨reported, hr⟩ := hr
  rw [hr b, hr d]
  exact ⟨h.nodes, h.tracks.ids, congrArg (reported ++ ·) h.tracks.found, h.tracks.claimed,
    h.tracks.byId⟩

/-- Patching a slot leaves its id alone. -/
theorem Tracks.patch (h : Tracks b d) (slot : Nat) {f : Entry → Entry} (hf : ∀ e, (f e).id = e.id) :
    Tracks ((patch slot f).run b).2 d :=
  ⟨h.ids, h.found, h.claimed, fun id => (h.byId id).trans (Arena.find?_modify hf).symm⟩

/-- Filling in what a node does leaves the nodes inside it alone, and those before it. -/
theorem Lays.patchKind {id : String} {kind : Entry.Kind} {next : Option Nat}
    (h : Lays a (⟨id, kind, next⟩ :: new) b d) (kind' : Entry.Kind) :
    Lays a (⟨id, kind', next⟩ :: new) ((patchKind a.length kind').run b).2 d where
  nodes := by
    show b.seen.nodes.modify a.length _ = _
    rw [h.nodes, Arena.modify_length_append]
  tracks := h.tracks.patch a.length fun _ => rfl

/-- The same id is chosen, and the slots stay as they are. -/
theorem Tracks.chooseId (h : Tracks b d) (written : Option String) :
    ((chooseId written).run b).1 = ((chooseId written).run d).1 ∧
      ((chooseId written).run b).2.seen = b.seen ∧
      Tracks ((chooseId written).run b).2 ((chooseId written).run d).2 := by
  unfold Graph.chooseId
  split
  · exact ⟨rfl, rfl, h⟩
  · exact ⟨congrArg (fun ids => ids.take.1) h.ids, rfl, congrArg (fun ids => ids.take.2) h.ids,
      h.found, h.claimed, h.byId⟩

/-- `claim` as a case distinction on the id: it stands at a position already, or it is put at the
    next slot. -/
theorem run_claim (id : String) (location : Location) (b : Draft Slots) :
    (claim id location).run b =
      if (b.seen.byId.get? id).isSome then (reportRepeated id location).run b
      else ((), { b with seen.byId := b.seen.byId.insert id b.seen.nodes.length }) := by
  rw [claim, run_bind]
  show StateT.run (if (b.seen.byId.get? id).isSome = true then _ else _ : Building Slots Unit) b = _
  split <;> rfl

/-- `claimId` as the same case distinction, without positions. -/
theorem run_claimId (id : String) (location : Location) (d : Sketch) :
    (claimId id location).run d =
      if d.seen.contains id then (reportRepeated id location).run d
      else ((), { d with seen := id :: d.seen }) := by
  rw [claimId, run_bind]
  show StateT.run (if d.seen.contains id = true then _ else _ : Building (List String) Unit) d = _
  split <;> rfl

/-- Claiming an id and taking a slot for it adds a vacant slot.  An id that was used before is
    reported by both and keeps its position. -/
theorem Tracks.reserve (h : Tracks b d) (id : String) (location : Location) :
    Lays b.seen.nodes [⟨id, vacant, none⟩]
      ((reserve id).run ((claim id location).run b).2).2 ((claimId id location).run d).2 := by
  have hfind : ∀ id', Arena.find? (b.seen.nodes ++ [⟨id, vacant, none⟩]) id' =
      (b.seen.byId.get? id').or (if id = id' then some b.seen.nodes.length else none) := by
    intro id'
    rw [Arena.find?_append_singleton, h.byId]
  rw [run_claim, run_claimId]
  by_cases hused : (b.seen.byId.get? id).isSome
  · rw [if_pos hused, if_pos (List.contains_iff_mem.2 ((h.claimed id).2 hused))]
    refine ⟨rfl, h.ids, congrArg _ h.found, h.claimed, fun id' => ?_⟩
    refine Eq.trans ?_ (hfind id').symm
    show b.seen.byId.get? id' = _
    by_cases hid : id = id'
    · obtain ⟨i, hi⟩ := Option.isSome_iff_exists.1 (hid ▸ hused)
      rw [hi, Option.some_or]
    · rw [if_neg hid, Option.or_none]
  · have hseen : id ∉ d.seen := fun hmem => hused ((h.claimed id).1 hmem)
    rw [if_neg hused, if_neg (fun hmem => hseen (List.contains_iff_mem.1 hmem))]
    have hinsert : ∀ id', (b.seen.byId.insert id b.seen.nodes.length).get? id' =
        if id' = id then some b.seen.nodes.length else b.seen.byId.get? id' := fun id' =>
      Dict.get?_insert _ _ _ _
    refine ⟨rfl, h.ids, h.found, fun id' => ?_, fun id' => ?_⟩
    · show id' ∈ id :: d.seen ↔ (Dict.get? (Dict.insert _ _ _) id').isSome
      rw [hinsert, List.mem_cons, h.claimed]
      by_cases hid : id' = id
      · simp [hid]
      · simp [hid]
    · refine Eq.trans (hinsert id') (Eq.trans ?_ (hfind id').symm)
      by_cases hid : id' = id
      · rw [hid, if_pos rfl, if_pos rfl, Option.not_isSome_iff_eq_none.1 hused, Option.none_or]
      · rw [if_neg hid, if_neg (Ne.symm hid), Option.or_none]

/-! ### The invariant of the builder -/

/-- The arena with another link from the entry at `previous`, if there is one, to the next node. -/
def relink (a : Arena) (previous next : Option Nat) : Arena :=
  match previous with
  | some slot => a.modify slot fun e => { e with next := next }
  | none => a

/-- The entry at `previous`, if there is one, has no link to a next node. -/
def Loose (a : Arena) (previous : Option Nat) : Prop :=
  ∀ slot ∈ previous, ∃ e, a[slot]? = some e ∧ e.next = none

/-- Linking a node to the next one takes no slot. -/
theorem length_relink (a : Arena) (previous next : Option Nat) :
    (relink a previous next).length = a.length := by
  cases previous with
  | none => rfl
  | some slot => exact List.length_modify _ _ _

/-- A node that is loose is not linked to anything yet. -/
theorem relink_none (h : Loose a previous) : relink a previous none = a := by
  cases previous with
  | none => rfl
  | some slot =>
    obtain ⟨e, he, hnext⟩ := h slot rfl
    refine List.ext_getElem? fun i => ?_
    rw [relink, List.getElem?_modify]
    by_cases hi : slot = i
    · subst hi
      rw [he, ← hnext]
      simp
    · simp [hi]

/-- There is such an entry. -/
theorem Loose.lt {slot : Nat} (h : Loose a (some slot)) : slot < a.length := by
  obtain ⟨e, he, -⟩ := h slot rfl
  exact (List.getElem?_eq_some_iff.1 he).1

/-- There is no node to link. -/
theorem loose_none (a : Arena) : Loose a none := fun _ h => nomatch h

/-- The node that was laid out last has no link yet. -/
theorem loose_entries (a : Arena) (n : Node) :
    Loose (a ++ n.entries a.length none) (some a.length) := by
  rintro _ ⟨⟩
  exact ⟨⟨n.id, n.kindAt a.length, none⟩, by simp [Node.entries_eq_cons], rfl⟩

/-- Once it gets one, it is laid out with that link. -/
theorem relink_entries (a : Arena) (n : Node) (next : Option Nat) :
    relink (a ++ n.entries a.length none) (some a.length) next = a ++ n.entries a.length next := by
  rw [Node.entries_eq_cons, Node.entries_eq_cons, relink, Arena.modify_length_append]

/-- Linking an entry to the next node leaves those behind it alone. -/
theorem Lays.patchNext (h : Lays a new b d) {slot : Nat} (hslot : slot < a.length) (next : Nat) :
    Lays (relink a (some slot) (some next)) new ((patchNext slot next).run b).2 d where
  nodes := by
    show b.seen.nodes.modify slot _ = _
    rw [h.nodes, relink, Arena.modify_append hslot]
  tracks := h.tracks.patch slot fun _ => rfl

/-- Laying out steps, which ends with `r`, tracks drawing their nodes, which ends with `r'`: the
    entries of the nodes are appended, and the entry before them is linked to the first. -/
structure LaysAll (head previous : Option Nat) (b : Draft Slots) (r : Option Nat × Draft Slots)
    (r' : List Node × Sketch) : Prop where
  head : r.1 = if previous.isSome then head else (Node.link b.seen.nodes.length r'.1).or head
  lays : Lays (relink b.seen.nodes previous (Node.link b.seen.nodes.length r'.1))
    (Node.entriesAll b.seen.nodes.length r'.1) r.2 r'.2

/-- The steps inside a step are linked from no entry before them. -/
theorem LaysAll.inside {r : Option Nat × Draft Slots} {r' : List Node × Sketch}
    (h' : LaysAll none none b r r') (h : Lays a new b d) :
    r.1 = Node.link (a.length + new.length) r'.1 ∧
      Lays a (new ++ Node.entriesAll (a.length + new.length) r'.1) r.2 r'.2 := by
  have hlength : b.seen.nodes.length = a.length + new.length := by rw [h.nodes, List.length_append]
  rw [← hlength]
  exact ⟨h'.head.trans Option.or_none, h.append h'.lays⟩

/-- The node of a step is laid out after `a`, and then the steps after it. -/
theorem LaysAll.cons {n : Node} {head : Option Nat} {r : Option Nat × Draft Slots}
    {r' : List Node × Sketch} (h : Lays a (n.entries a.length none) b d)
    (h' : LaysAll head (some a.length) b r r') :
    r.1 = head ∧ Lays a (Node.entriesAll a.length (n :: r'.1)) r.2 r'.2 := by
  have hlength : b.seen.nodes.length = a.length + n.size := by
    rw [h.nodes, List.length_append, Node.length_entries]
  have hlays := h'.lays
  -- The link of the node is patched when the next one is laid out.
  rw [hlength, h.nodes, relink_entries] at hlays
  exact ⟨h'.head, by rw [hlays.nodes, Node.entriesAll, List.append_assoc], hlays.tracks⟩

mutual

/-- Laying out a step appends the entries of its node. -/
theorem lays_place (location : Location) : ∀ (s : Step) {b : Draft Slots} {d : Sketch},
    Tracks b d →
      ((place location s).run b).1 = b.seen.nodes.length ∧
      Lays b.seen.nodes (((node location s).run d).1.entries b.seen.nodes.length none)
        ((place location s).run b).2 ((node location s).run d).2
  | ⟨id, kind, urn, params, exports, condition, onTrue, onFalse, iterateOn, itemAs, body⟩, b, d,
    h => by
    -- Whatever the kind of the step, an id is chosen and claimed, and a slot is taken.
    obtain ⟨hid, hsame, h⟩ := h.chooseId id
    rw [place, node, run_bind, run_bind, run_bind, run_bind, run_bind, hid, ← hsame]
    generalize (chooseId id).run b = b₁ at *
    generalize (chooseId id).run d = d₁ at *
    have h := h.reserve d₁.1 location
    rw [show ((reserve d₁.1).run ((claim d₁.1 location).run b₁.2).2).1 = b₁.2.seen.nodes.length by
      rw [run_claim]; split <;> rfl]
    generalize ((reserve d₁.1).run ((claim d₁.1 location).run b₁.2).2).2 = b₂ at *
    generalize ((claimId d₁.1 location).run d₁.2).2 = d₂ at *
    generalize b₁.2.seen.nodes = a at *
    dsimp only
    by_cases hexec : kind.getD Step.executeKind = Step.executeKind
    · rw [if_pos hexec, if_pos hexec]
      exact ⟨rfl, (h.reports (reports_checkAction _ _ _ _)).patchKind _⟩
    rw [if_neg hexec, if_neg hexec]
    by_cases hif : kind.getD Step.executeKind = Step.ifKind
    · rw [if_pos hif, if_pos hif, run_bind, run_bind, run_bind, run_bind, run_bind, run_bind,
        run_bind]
      have h := h.reports (reports_checkCondition d₁.1 location (condition.getD ""))
      generalize ((checkCondition d₁.1 location (condition.getD "")).run b₂).2 = b₃ at *
      generalize ((checkCondition d₁.1 location (condition.getD "")).run d₂).2 = d₃ at *
      obtain ⟨hyes, h⟩ := (lays_placeAll (location.key "onTrue") 0 none none onTrue (loose_none _)
        h.tracks).inside h
      generalize (placeAll (location.key "onTrue") 0 none none onTrue).run b₃ = yes at *
      generalize (chain (location.key "onTrue") 0 onTrue).run d₃ = yes' at *
      obtain ⟨hno, h⟩ := (lays_placeAll (location.key "onFalse") 0 none none onFalse (loose_none _)
        h.tracks).inside h
      generalize (placeAll (location.key "onFalse") 0 none none onFalse).run yes.2 = no at *
      generalize (chain (location.key "onFalse") 0 onFalse).run yes'.2 = no' at *
      rw [List.length_append, Node.length_entriesAll, ← Nat.add_assoc] at hno h
      rw [hyes, hno]
      exact ⟨rfl, h.patchKind _⟩
    rw [if_neg hif, if_neg hif]
    by_cases hfor : kind.getD Step.executeKind = Step.forKind
    · rw [if_pos hfor, if_pos hfor, run_bind, run_bind, run_bind, run_bind, run_bind]
      have h := h.reports (reports_checkElements d₁.1 location (trimmed iterateOn))
      generalize ((checkElements d₁.1 location (trimmed iterateOn)).run b₂).2 = b₃ at *
      generalize ((checkElements d₁.1 location (trimmed iterateOn)).run d₂).2 = d₃ at *
      obtain ⟨hbody, h⟩ := (lays_placeAll (location.key "body") 0 none none body (loose_none _)
        h.tracks).inside h
      generalize (placeAll (location.key "body") 0 none none body).run b₃ = nodes at *
      generalize (chain (location.key "body") 0 body).run d₃ = nodes' at *
      rw [hbody]
      exact ⟨rfl, h.patchKind _⟩
    · rw [if_neg hfor, if_neg hfor]
      exact ⟨rfl, h.reports (reports_report _ _)⟩

/-- **The invariant of the builder.** Laying out steps links the entry before them to the first of
    their nodes and appends the entries of the nodes. -/
theorem lays_placeAll (location : Location) : ∀ (position : Nat) (head previous : Option Nat)
    (steps : List Step) {b : Draft Slots} {d : Sketch}, Loose b.seen.nodes previous → Tracks b d →
      LaysAll head previous b ((placeAll location position head previous steps).run b)
        ((chain location position steps).run d)
  | position, head, previous, [], b, d, hloose, h => by
    rw [placeAll, chain]
    refine ⟨?_, ?_, h⟩
    · show head = if previous.isSome then head else (none : Option Nat).or head
      rw [Option.none_or, ite_self]
    · show b.seen.nodes = relink b.seen.nodes previous none ++ []
      rw [relink_none hloose, List.append_nil]
  | position, head, previous, s :: rest, b, d, hloose, h => by
    obtain ⟨hslot, hlays⟩ := lays_place (location.index position) s h
    rw [placeAll, chain, run_bind, run_bind, hslot]
    generalize ((place (location.index position) s).run b).2 = b₁ at *
    generalize (node (location.index position) s).run d = d₁ at *
    cases previous with
    | none =>
      have hrest := lays_placeAll location (position + 1) (some b.seen.nodes.length)
        (some b.seen.nodes.length) rest (hlays.nodes ▸ loose_entries _ _) hlays.tracks
      obtain ⟨hhead, h⟩ := hrest.cons hlays
      exact ⟨hhead, h⟩
    | some previous =>
      -- The entry before the steps is linked to the first of them as soon as it has a slot.
      have hlinked := hlays.patchNext hloose.lt b.seen.nodes.length
      have hlength := length_relink b.seen.nodes (some previous) (some b.seen.nodes.length)
      rw [run_bind]
      generalize ((patchNext previous b.seen.nodes.length).run b₁).2 = b₂ at *
      generalize hlink : relink b.seen.nodes (some previous) (some b.seen.nodes.length) = a at *
      rw [← hlength] at hlinked
      have hrest := lays_placeAll location (position + 1) head (some a.length) rest
        (hlinked.nodes ▸ loose_entries a d₁.1) hlinked.tracks
      obtain ⟨hhead, h⟩ := hrest.cons hlinked
      rw [hlength] at hhead h
      exact ⟨hhead, hlink ▸ h⟩

end

/-! ### Documents -/

/-- The slots of a document are the entries of the tree that is drawn of it. -/
theorem laysAll_lay (document : List Step) (ids : IdSource) :
    LaysAll none none ⟨ids, {}, []⟩ (lay document ids) (draft document ids) :=
  lays_placeAll .root 0 none none document (loose_none _) (tracks_start ids)

/-- A document is laid out as its draft is drawn: the same ids are claimed and the same issues
    found. -/
theorem tracks_lay (document : List Step) (ids : IdSource) :
    Tracks (lay document ids).2 (draft document ids).2 :=
  (laysAll_lay document ids).lays.tracks

/-- A layout of a graph has its entries, and an id leads to the first entry that has it. -/
structure LaidOut (g : Graph) (l : Layout) : Prop where
  nodes : l.nodes = g.arena
  root : l.root = g.root?
  find : ∀ id, l.find? id = g.arena.find? id

/-- The tree of a layout is the graph that was laid out. -/
theorem LaidOut.graph_eq {g : Graph} {l : Layout} (h : LaidOut g l) : l.graph = g := by
  rw [Layout.graph, h.nodes, h.root]
  exact congrArg Graph.mk (Arena.reach_chains_arena g.nodes)

/-- `validate` lists what is found when the document is drawn, which is all that checks need. -/
theorem validate_eq (document : List Step) :
    validate document = Issue.sort (draft document .fresh).2.found.reverse := by
  rw [validate, (tracks_lay document .fresh).found]

/-- **Layouts.** A document has the layout of the tree that is drawn of it, unless errors are
    found on the way. -/
theorem layout_eq (document : List Step) (ids : IdSource) :
    ∃ l, LaidOut ⟨(draft document ids).1⟩ l ∧
      layout document ids =
        (if Issue.hasErrors (draft document ids).2.found.reverse then
          .error (Issue.sort ((draft document ids).2.found.reverse.filter Issue.isError))
        else .ok l, (draft document ids).2.ids) := by
  have h := laysAll_lay document ids
  have htracks := tracks_lay document ids
  refine ⟨⟨(lay document ids).2.seen.nodes, (lay document ids).1, (lay document ids).2.seen.byId⟩,
    ⟨h.lays.nodes, h.head.trans Option.or_none, fun id => ?_⟩, ?_⟩
  · show (lay document ids).2.seen.byId.get? id = _
    rw [htracks.byId, h.lays.nodes]
    rfl
  · rw [← htracks.found, ← htracks.ids, layout]
    generalize lay document ids = laid
    obtain ⟨root, b⟩ := laid
    dsimp only
    split <;> rfl

/-- **Graphs.** A document has the tree that is drawn of it for a graph, unless errors are found on
    the way. -/
theorem build_eq (document : List Step) (ids : IdSource) :
    build document ids =
      (if Issue.hasErrors (draft document ids).2.found.reverse then
        .error (Issue.sort ((draft document ids).2.found.reverse.filter Issue.isError))
      else .ok ⟨(draft document ids).1⟩, (draft document ids).2.ids) := by
  obtain ⟨l, hl, h⟩ := layout_eq document ids
  rw [build, h, ← hl.graph_eq]
  split <;> rfl

/-- **What is built is laid out.** A graph was built from the layout of its document. -/
theorem layout_of_build {document : List Step} {ids rest : IdSource} {g : Graph}
    (h : build document ids = (.ok g, rest)) :
    ∃ l, layout document ids = (.ok l, rest) ∧ LaidOut g l := by
  obtain ⟨l, hl, hlayout⟩ := layout_eq document ids
  rw [build_eq] at h
  by_cases herrors : Issue.hasErrors (draft document ids).2.found.reverse
  · rw [if_pos herrors] at h
    cases h
  · rw [if_neg herrors] at h hlayout
    cases h
    exact ⟨l, hlayout, hl⟩

/-- The graph of a layout is the one that is built. -/
theorem build_of_layout {document : List Step} {ids rest : IdSource} {l : Layout}
    (h : layout document ids = (.ok l, rest)) :
    build document ids = (.ok l.graph, rest) := by
  rw [build, h]
  rfl

end Graph

end Runbook
