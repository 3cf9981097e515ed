import Runbook.Proofs.Graph.Build

namespace Runbook

/-!
# Runbook graphs — a layout mirrors its document

The layout of a document is the document once more, by position:

* `Step.visitAll` — the steps of a document that are part of the runbook, in the order in which they
  are written, each with its place in the document;
* `Shows` — an entry has the kind and the fields of a step;
* `Mirrors` — everything that makes a layout the forest of a document;
* `mirrors_of_layout` — `Graph.layout` answers a layout that mirrors its document.

Places tell steps apart (`nodup_visitAll`), so that a list of places says which steps are meant even
where the same step is written twice.
-/

/-! ### The steps of a document by place -/

namespace Step

mutual

/-- A step and the steps inside it that its kind makes use of, each with its place. -/
def visit (place : Location) : Step → List (Location × Step)
  | ⟨id, kind, urn, params, exports, condition, onTrue, onFalse, iterateOn, itemAs, body⟩ =>
    (place,
      ⟨id, kind, urn, params, exports, condition, onTrue, onFalse, iterateOn, itemAs, body⟩) ::
      if kind.getD executeKind = ifKind then
        visitAll (place.key "onTrue") 0 onTrue ++ visitAll (place.key "onFalse") 0 onFalse
      else if kind.getD executeKind = forKind then visitAll (place.key "body") 0 body
      else []

/-- Steps that are written one after the other, the first at `position`, each with the steps inside
    it. -/
def visitAll (place : Location) (position : Nat) : List Step → List (Location × Step)
  | [] => []
  | s :: rest => visit (place.index position) s ++ visitAll place (position + 1) rest

end

/-- The steps of one list of a document with their places, the first at `position`. -/
def placed (place : Location) (position : Nat) (steps : List Step) : List (Location × Step) :=
  (steps.zipIdx position).map fun p => (place.index p.2, p.1)

/-- The first of some steps in a row stands at `position`. -/
theorem placed_cons (place : Location) (position : Nat) (s : Step) (rest : List Step) :
    placed place position (s :: rest) =
      (place.index position, s) :: placed place (position + 1) rest := rfl

/-! ### Places tell steps apart -/

mutual

/-- All steps inside a step lie below its place. -/
theorem prefix_visit {place : Location} :
    ∀ {s : Step} {p : Location × Step}, p ∈ visit place s → place.segments <+: p.1.segments
  | ⟨id, kind, urn, params, exports, condition, onTrue, onFalse, iterateOn, itemAs, body⟩, p,
    h => by
    have hkey : ∀ name, place.segments <+: (place.key name).segments := fun name =>
      List.prefix_append _ _
    rw [visit, List.mem_cons] at h
    rcases h with rfl | h
    · exact List.prefix_rfl
    split at h
    · rcases List.mem_append.1 h with h | h
      · obtain ⟨i, hi⟩ := prefix_visitAll h
        exact (hkey _).trans ((List.prefix_append _ _).trans hi.2)
      · obtain ⟨i, hi⟩ := prefix_visitAll h
        exact (hkey _).trans ((List.prefix_append _ _).trans hi.2)
    · split at h
      · obtain ⟨i, hi⟩ := prefix_visitAll h
        exact (hkey _).trans ((List.prefix_append _ _).trans hi.2)
      · exact absurd h (by simp)

/-- All steps inside the steps of a list lie below the place of one of them. -/
theorem prefix_visitAll {place : Location} :
    ∀ {position : Nat} {steps : List Step} {p : Location × Step},
      p ∈ visitAll place position steps →
        ∃ i, position ≤ i ∧ (place.index i).segments <+: p.1.segments
  | position, [], p, h => by simp [visitAll] at h
  | position, s :: rest, p, h => by
    rw [visitAll] at h
    rcases List.mem_append.1 h with h | h
    · exact ⟨position, Nat.le_refl _, prefix_visit h⟩
    · obtain ⟨i, hi, hp⟩ := prefix_visitAll h
      exact ⟨i, by omega, hp⟩

end

/-- Below two different continuations of a place there is no common place. -/
theorem ne_of_segments {segments below below' : List Segment} {x y : Segment} (hxy : x ≠ y)
    (h : segments ++ [x] <+: below) (h' : segments ++ [y] <+: below') : below ≠ below' := by
  rintro rfl
  obtain ⟨t, rfl⟩ := h
  obtain ⟨t', ht⟩ := h'
  simp only [List.append_assoc, List.cons_append, List.nil_append, List.append_cancel_left_eq,
    List.cons.injEq] at ht
  exact hxy ht.1.symm

mutual

/-- `nodup_visitAll` for a single step and the steps inside it. -/
theorem nodup_visit (place : Location) : ∀ s : Step, ((visit place s).map Prod.fst).Nodup
  | ⟨id, kind, urn, params, exports, condition, onTrue, onFalse, iterateOn, itemAs, body⟩ => by
    -- The step itself lies at a shorter place than the steps inside it.
    have hshort : ∀ {name : String} {steps : List Step} {p : Location × Step},
        p ∈ visitAll (place.key name) 0 steps → p.1 ≠ place := by
      rintro name steps p hp rfl
      obtain ⟨i, -, hi⟩ := prefix_visitAll hp
      have := hi.length_le
      simp only [Location.index, Location.key, List.length_append, List.length_singleton] at this
      omega
    rw [visit, List.map_cons, List.nodup_cons]
    split
    · refine ⟨?_, ?_⟩
      · rintro hmem
        obtain ⟨p, hp, hplace⟩ := List.mem_map.1 hmem
        rcases List.mem_append.1 hp with hp | hp
        · exact hshort hp hplace
        · exact hshort hp hplace
      · rw [List.map_append, List.nodup_append]
        refine ⟨nodup_visitAll _ 0 onTrue, nodup_visitAll _ 0 onFalse, ?_⟩
        intro a ha b hb
        obtain ⟨p, hp, rfl⟩ := List.mem_map.1 ha
        obtain ⟨q, hq, rfl⟩ := List.mem_map.1 hb
        obtain ⟨i, -, hi⟩ := prefix_visitAll hp
        obtain ⟨j, -, hj⟩ := prefix_visitAll hq
        intro hpq
        -- The places in the two branches part at the names of the branches.
        refine ne_of_segments (x := .key "onTrue") (y := .key "onFalse") (by decide)
          ((List.prefix_append _ _).trans hi) ((List.prefix_append _ _).trans hj) ?_
        rw [hpq]
    · split
      · refine ⟨?_, nodup_visitAll _ 0 body⟩
        rintro hmem
        obtain ⟨p, hp, hplace⟩ := List.mem_map.1 hmem
        exact hshort hp hplace
      · exact ⟨by simp, List.nodup_nil⟩

/-- **Places.** No two visited steps of a document have the same place. -/
theorem nodup_visitAll (place : Location) :
    ∀ (position : Nat) (steps : List Step), ((visitAll place position steps).map Prod.fst).Nodup
  | position, [] => by simp [visitAll]
  | position, s :: rest => by
    rw [visitAll, List.map_append, List.nodup_append]
    refine ⟨nodup_visit _ s, nodup_visitAll place (position + 1) rest, ?_⟩
    intro a ha b hb
    obtain ⟨p, hp, rfl⟩ := List.mem_map.1 ha
    obtain ⟨q, hq, rfl⟩ := List.mem_map.1 hb
    obtain ⟨j, hj, hq'⟩ := prefix_visitAll hq
    intro hpq
    -- The places in different steps of a list part at the positions of the steps.
    refine ne_of_segments (x := .index position) (y := .index j) ?_ (prefix_visit hp) hq' ?_
    · intro hij
      obtain rfl : position = j := by simpa using hij
      omega
    · rw [hpq]

end

/-! ### Visited steps by kind -/

/-- The visited steps inside a step by its `effectiveKind`, with what it does not use left out. -/
theorem visit_eq (place : Location) (s : Step) :
    visit place s = (place, s) ::
      if s.effectiveKind = ifKind then
        visitAll (place.key "onTrue") 0 s.onTrue ++ visitAll (place.key "onFalse") 0 s.onFalse
      else if s.effectiveKind = forKind then visitAll (place.key "body") 0 s.body
      else [] := by
  cases s
  rw [visit]
  rfl

/-- Nothing is visited inside an action. -/
theorem visit_execute {place : Location} {s : Step} (h : s.effectiveKind = executeKind) :
    visit place s = [(place, s)] := by
  rw [visit_eq, h, if_neg (by decide), if_neg (by decide)]

/-- The branches of a choice are visited, first `onTrue` and then `onFalse`. -/
theorem visit_if {place : Location} {s : Step} (h : s.effectiveKind = ifKind) :
    visit place s = (place, s) ::
      (visitAll (place.key "onTrue") 0 s.onTrue ++ visitAll (place.key "onFalse") 0 s.onFalse) := by
  rw [visit_eq, if_pos h]

/-- The body of a loop is visited. -/
theorem visit_for {place : Location} {s : Step} (h : s.effectiveKind = forKind) :
    visit place s = (place, s) :: visitAll (place.key "body") 0 s.body := by
  rw [visit_eq, h, if_neg (by decide), if_pos rfl]

end Step

namespace Graph

open Step (visit visitAll placed placed_cons visit_eq visit_execute visit_if visit_for)
open Node (sizeAll positions length_subtree length_listing)

/-! ### Nodes and visited steps stand at the same positions -/

mutual

/-- A step and its node take up equally many positions. -/
theorem length_visit {place : Location} :
    ∀ {n : Node} {s : Step}, Built s n → (visit place s).length = n.size
  | .action .., s, .action _ hkind => by rw [visit_execute hkind, List.length_singleton, Node.size]
  | .choice _ _ yes no, s, .choice _ hkind hyes hno => by
    rw [visit_if hkind, List.length_cons, List.length_append, length_visitAll hyes,
      length_visitAll hno, Node.size]
    omega
  | .loop _ _ _ body, s, .loop _ hkind hbody => by
    rw [visit_for hkind, List.length_cons, length_visitAll hbody, Node.size]
    omega

/-- `length_visit` for steps in a row. -/
theorem length_visitAll {place : Location} {position : Nat} :
    ∀ {nodes : List Node} {steps : List Step}, BuiltAll steps nodes →
      (visitAll place position steps).length = sizeAll nodes
  | [], _, .nil => by rw [visitAll, sizeAll, List.length_nil]
  | n :: rest, _, .cons hn hrest => by
    rw [visitAll, sizeAll, List.length_append, length_visit hn, length_visitAll hrest]

end

variable {v : List (Location × Step)}

mutual

/-- Every node inside a node was made of the step that is listed at the same position. -/
theorem stands_visit {place : Location} {start : Nat} :
    ∀ {n : Node} {s : Step}, Built s n → Stands v start (visit place s) →
      ∀ {k : Nat} {m : Node}, n.subtree[k]? = some m →
        ∃ place' s', Built s' m ∧ Stands v (start + k) (visit place' s')
  | n, s, hb, h, 0, m, hm => by
    have hn : n = m := by
      cases n <;> simpa [Node.subtree] using hm
    exact ⟨place, s, hn ▸ hb, h⟩
  | .action .., s, _, _, k + 1, m, hm => by simp [Node.subtree] at hm
  | .choice _ _ yes no, s, .choice _ hkind hyes hno, h, k + 1, m, hm => by
    rw [visit_if hkind, stands_cons, stands_append, length_visitAll hyes] at h
    obtain ⟨_, htrue, hfalse⟩ := h
    rw [Node.subtree, List.getElem?_cons_succ, List.getElem?_append, length_listing] at hm
    split at hm
    · obtain ⟨place', s', hb', h'⟩ := stands_visitAll hyes htrue hm
      exact ⟨place', s', hb', by rwa [show start + (k + 1) = start + 1 + k by omega]⟩
    · obtain ⟨place', s', hb', h'⟩ := stands_visitAll hno hfalse hm
      exact ⟨place', s', hb', by
        rwa [show start + (k + 1) = start + 1 + sizeAll yes + (k - sizeAll yes) by omega]⟩
  | .loop _ _ _ body, s, .loop _ hkind hbody, h, k + 1, m, hm => by
    rw [visit_for hkind, stands_cons] at h
    rw [Node.subtree, List.getElem?_cons_succ] at hm
    obtain ⟨place', s', hb', h'⟩ := stands_visitAll hbody h.2 hm
    exact ⟨place', s', hb', by rwa [show start + (k + 1) = start + 1 + k by omega]⟩

/-- Every listed node was made of the step that is listed at the same position. -/
theorem stands_visitAll {place : Location} {position start : Nat} :
    ∀ {nodes : List Node} {steps : List Step}, BuiltAll steps nodes →
      Stands v start (visitAll place position steps) →
      ∀ {k : Nat} {m : Node}, (Node.listing nodes)[k]? = some m →
        ∃ place' s', Built s' m ∧ Stands v (start + k) (visit place' s')
  | [], _, _, _, k, m, hm => by simp [Node.listing] at hm
  | n :: rest, _, .cons hn hrest, h, k, m, hm => by
    rw [visitAll, stands_append, length_visit hn] at h
    rw [Node.listing, List.getElem?_append, length_subtree] at hm
    split at hm
    · exact stands_visit hn h.1 hm
    · obtain ⟨place', s', hb', h'⟩ := stands_visitAll hrest h.2 hm
      exact ⟨place', s', hb', by rwa [show start + k = start + n.size + (k - n.size) by omega]⟩

end

/-- The nodes of one list stand where its steps are listed, in order. -/
theorem map_positions {place : Location} {position start : Nat} {steps : List Step}
    {nodes : List Node} (hb : BuiltAll steps nodes)
    (h : Stands v start (visitAll place position steps)) :
    (positions start nodes).map (v[·]?) = (placed place position steps).map some := by
  induction nodes generalizing position start steps with
  | nil =>
    cases hb
    rfl
  | cons n rest ih =>
    cases hb with
    | cons hn hrest =>
      rw [visitAll, stands_append, length_visit hn] at h
      have hhead := h.1
      rw [visit_eq, stands_cons] at hhead
      rw [positions, placed_cons, List.map_cons, List.map_cons, hhead.1, ih hrest h.2]

/-! ### Entries show steps -/

/-- An entry has the id that its step was written with, if it was written with one, and the kind and
    the fields that the step declares.  Urns, elements and ids lose the blanks around them, and the
    name of an element loses the mark of a variable as well. -/
def Shows (s : Step) (e : Entry) : Prop :=
  (∀ id, IdSource.authored? s.id = some id → e.id = id) ∧
    match e.kind with
    | .action urn params exports =>
      s.effectiveKind = "execute" ∧ urn = (s.urn.map Text.trim).getD "" ∧ params = s.params ∧
        exports = s.exports
    | .choice condition _ _ => s.effectiveKind = "if" ∧ condition = s.condition.getD ""
    | .loop elements itemAs _ =>
      s.effectiveKind = "for" ∧ elements = (s.iterateOn.map Text.trim).getD "" ∧
        itemAs = (s.itemAs.map fun name =>
          String.ofList ((Text.trim name).toList.dropWhile (· == '$'))).filter (· ≠ "")

/-- `itemName?` without the case distinctions on texts that it is computed by. -/
theorem itemName?_eq (name : Option String) :
    itemName? name = (name.map fun name =>
      String.ofList ((Text.trim name).toList.dropWhile (· == '$'))).filter (· ≠ "") := by
  cases name with
  | none => rfl
  | some name =>
    simp only [itemName?, Text.trim, String.toList_ofList, Option.map_some]
    -- A name is empty if no character is left of it.
    generalize (Text.trimChars name.toList).dropWhile (· == '$') = cs
    cases cs with
    | nil => rfl
    | cons c cs =>
      have hne : String.ofList (c :: cs) ≠ "" := fun h => by
        have := congrArg String.toList h
        simp at this
      simp only [List.isEmpty_cons, Bool.false_eq_true, if_false, Option.filter, decide_not,
        decide_eq_false hne, Bool.not_false, if_true]

/-- The entry of a node shows the step it was `Built` from, wherever it stands. -/
theorem shows_of_built {s : Step} {n : Node} (h : Built s n) (start : Nat) (next : Option Nat) :
    Shows s ⟨n.id, n.kindAt start, next⟩ := by
  cases h with
  | action hid hkind => exact ⟨hid, hkind, rfl, rfl, rfl⟩
  | choice hid hkind _ _ => exact ⟨hid, hkind, rfl⟩
  | loop hid hkind _ => exact ⟨hid, hkind, rfl, itemName?_eq _⟩

/-- The lists of steps inside the step of an entry, each with the link to its first node. -/
def blocks (e : Entry) : List (Step.BlockField × Option Nat) :=
  match e.kind with
  | .action .. => []
  | .choice _ yes no => [(.onTrue, yes), (.onFalse, no)]
  | .loop _ _ body => [(.body, body)]

/-! ### Layouts and documents -/

/-- A layout is the forest of a document. -/
structure Mirrors (document : List Step) (l : Layout) : Prop where
  /-- Steps are told apart by their places. -/
  places : ((visitAll .root 0 document).map Prod.fst).Nodup
  /-- There is one entry for every visited step. -/
  size : l.nodes.length = (visitAll .root 0 document).length
  /-- The entry at a position has the kind and the fields of the step that is visited there. -/
  shows : ∀ (i : Nat) (p : Location × Step) (e : Entry),
    (visitAll .root 0 document)[i]? = some p → l.nodes[i]? = some e → Shows p.2 e
  /-- Links lead forward and stay inside the arena. -/
  forward : ∀ i j : Nat, l.nodes.Linked i j → i < j ∧ j < l.nodes.length
  /-- Every entry but the root is the target of exactly one link, the root of none. -/
  target : ∀ j < l.nodes.length,
    (l.nodes.flatMap Entry.links).count j = if l.root = some j then 0 else 1
  /-- Every entry is reached from the root. -/
  reachable : ∀ j < l.nodes.length,
    ∃ r, l.root = some r ∧ Relation.ReflTransGen l.nodes.Linked r j
  /-- The chain from the root visits the steps at the top of the document, in order. -/
  rootChain : (l.nodes.chain l.root).map ((visitAll .root 0 document)[·]?) =
    (placed .root 0 document).map some
  /-- The chain from a link into an entry visits the steps of that list, in order. -/
  chains : ∀ (i : Nat) (p : Location × Step) (e : Entry),
    (visitAll .root 0 document)[i]? = some p → l.nodes[i]? = some e → ∀ b ∈ blocks e,
      (l.nodes.chain b.2).map ((visitAll .root 0 document)[·]?) =
        (placed (p.1.key (Step.Field.block b.1).name) 0 (p.2.getBlock b.1)).map some
  /-- An id leads to the one entry that has it, and to nothing if there is none. -/
  find : ∀ (id : String) (i : Nat), l.find? id = some i ↔ ∃ e, l.nodes[i]? = some e ∧ e.id = id
  /-- Only the empty document has no root. -/
  root : l.root = none ↔ document = []

/-- At the same position stand a step, the node made of it and its entries. -/
theorem stands_both {document : List Step} {g : Graph} (hb : BuiltAll document g.nodes) {i : Nat}
    {p : Location × Step} {e : Entry} (hp : (visitAll .root 0 document)[i]? = some p)
    (he : g.arena[i]? = some e) :
    ∃ (n : Node) (next : Option Nat), Built p.2 n ∧ e = ⟨n.id, n.kindAt i, next⟩ ∧
      Stands g.arena i (n.entries i next) ∧
      Stands (visitAll .root 0 document) i (visit p.1 p.2) := by
  obtain ⟨n, hn⟩ : ∃ n, (Node.listing g.nodes)[i]? = some n := by
    have hlt : i < (Node.listing g.nodes).length := by
      rw [length_listing, ← Node.length_entriesAll 0]
      exact (List.getElem?_eq_some_iff.1 he).1
    exact ⟨_, List.getElem?_eq_getElem hlt⟩
  obtain ⟨next, hentries⟩ := Node.stands_listing (List.prefix_rfl : Stands g.arena 0 _) hn
  obtain ⟨place, s, hs, hvisit⟩ := stands_visitAll hb
    (List.prefix_rfl : Stands (visitAll .root 0 document) 0 _) hn
  rw [Nat.zero_add] at hentries hvisit
  have hentry := hentries
  have hstep := hvisit
  rw [Node.entries_eq_cons, stands_cons, he, Option.some.injEq] at hentry
  rw [visit_eq, stands_cons, hp, Option.some.injEq] at hstep
  obtain ⟨rfl, -⟩ := hstep
  exact ⟨n, next, hs, hentry.1, hentries, hvisit⟩

/-- The entries that a block of a node chains stand for the steps of the block, in their order. -/
theorem chain_block {document : List Step} {g : Graph} (hb : BuiltAll document g.nodes) {i : Nat}
    {p : Location × Step} {e : Entry} (hp : (visitAll .root 0 document)[i]? = some p)
    (he : g.arena[i]? = some e) :
    ∀ b ∈ blocks e, (g.arena.chain b.2).map ((visitAll .root 0 document)[·]?) =
      (placed (p.1.key (Step.Field.block b.1).name) 0 (p.2.getBlock b.1)).map some := by
  obtain ⟨n, next, hs, rfl, hentries, hvisit⟩ := stands_both hb hp he
  rw [Node.entries_eq_cons, stands_cons] at hentries
  intro b hmem
  cases hs with
  | action => exact absurd hmem (by simp [blocks, Node.kindAt])
  | choice _ hkind hyes hno =>
    rw [visit_if hkind, stands_cons, stands_append, length_visitAll hyes] at hvisit
    rw [Node.innerEntries, stands_append, Node.length_entriesAll] at hentries
    simp only [blocks, Node.kindAt, List.mem_cons, List.not_mem_nil, or_false] at hmem
    rcases hmem with rfl | rfl
    · rw [Node.chain_link hentries.2.1]
      exact map_positions hyes hvisit.2.1
    · rw [Node.chain_link hentries.2.2]
      exact map_positions hno hvisit.2.2
  | loop _ hkind hbody =>
    rw [visit_for hkind, stands_cons] at hvisit
    simp only [blocks, Node.kindAt, List.mem_singleton] at hmem
    subst hmem
    rw [Node.chain_link hentries.2]
    exact map_positions hbody hvisit.2

/-- A graph has a root unless it has no nodes. -/
theorem root?_eq (g : Graph) : g.root? = if sizeAll g.nodes = 0 then none else some 0 := by
  rw [root?]
  cases g.nodes with
  | nil => rfl
  | cons n nodes =>
    have := Node.size_pos n
    rw [if_neg (by simp only [sizeAll]; omega)]
    rfl

/-- **A layout mirrors its document.** -/
theorem mirrors_of_layout {document : List Step} {ids rest : IdSource} {l : Layout}
    (h : layout document ids = (.ok l, rest)) : Mirrors document l := by
  obtain ⟨g, hl, hb, hnodup⟩ : ∃ g, LaidOut g l ∧ BuiltAll document g.nodes ∧
      ((Node.listing g.nodes).map Node.id).Nodup := by
    have hbuild := build_of_layout h
    obtain ⟨l', hlayout, hl⟩ := layout_of_build hbuild
    rw [h] at hlayout
    cases hlayout
    exact ⟨l.graph, hl, build_ok hbuild⟩
  have hlength : l.nodes.length = sizeAll g.nodes := by
    rw [hl.nodes]
    exact Node.length_entriesAll 0 g.nodes
  have hroot : l.root = if sizeAll g.nodes = 0 then none else some 0 := hl.root.trans (root?_eq g)
  constructor
  case places => exact Step.nodup_visitAll _ _ _
  case size => rw [hlength, length_visitAll hb]
  case shows =>
    intro i p e hp he
    obtain ⟨n, next, hs, rfl, -, -⟩ := stands_both hb hp (hl.nodes ▸ he)
    exact shows_of_built hs i next
  case forward =>
    rintro i j ⟨e, he, hj⟩
    rw [hl.nodes] at he
    have hij := Node.links_entriesAll he j hj
    omega
  case target =>
    intro j hj
    -- The links lead to every position but the first, and the first is the root.
    have hzero : l.root = some 0 := by rw [hroot, if_neg (by omega)]
    rw [hl.nodes, arena, Node.count_links_entriesAll, List.count_range_1', hzero]
    by_cases hj0 : j = 0
    · rw [if_neg (by omega), if_pos (by rw [hj0])]
    · rw [if_pos (by omega), if_neg (by simpa using Ne.symm hj0)]
  case reachable =>
    intro j hj
    refine ⟨0, by rw [hroot, if_neg (by omega)], ?_⟩
    rw [hl.nodes]
    exact Arena.reachable_entriesAll _ j (hlength ▸ hj)
  case rootChain =>
    rw [hl.nodes, hl.root, root?, Node.chain_link (List.prefix_rfl : Stands g.arena 0 _)]
    exact map_positions hb List.prefix_rfl
  case chains =>
    intro i p e hp he
    rw [hl.nodes] at he ⊢
    exact chain_block hb hp he
  case find =>
    intro id i
    rw [hl.find, hl.nodes]
    refine Arena.find?_eq_some_iff ?_
    rw [arena, Node.map_id_entriesAll]
    exact hnodup
  case root =>
    rw [hl.root]
    obtain ⟨nodes⟩ := g
    cases hb with
    | nil => simp [root?, Node.link]
    | cons => simp [root?, Node.link]

/-- The five entries of `nestedSteps`. -/
theorem mirrors_nestedSteps : layout nestedSteps .fresh = (.ok nestedLayout, ⟨5⟩) ∧
    Mirrors nestedSteps nestedLayout :=
  ⟨layout_nestedSteps, mirrors_of_layout layout_nestedSteps⟩

end Graph

end Runbook
