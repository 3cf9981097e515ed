import Mathlib.Logic.Relation
import Runbook.Graph

namespace Runbook

/-!
# Runbook graphs — the arena as a forest

`Graph.arena` lists a tree of nodes by position.  This file proves what the links of the entries are
good for:

* `Node.listing` — the nodes of a graph with all nodes inside them, in the order of the arena;
* `Stands` — some elements stand in a list one after the other, from a position on;
* `stands_subtree` — the entries of every listed node stand at its place in the listing;
* `follow_link` — the chain of a link visits the nodes of one list, in order;
* `count_links_entriesAll` — every position but the first is the target of exactly one link;
* `links_entriesAll` — a link leads to a later position inside the arena;
* `reachable_entriesAll` — links lead from the first position to every other one;
* `find?_eq_some_iff` — an id that is used once finds its position;
* `reach_chains_arena` — the links lead back to the tree.
-/

namespace Node

/-! ### Nodes in the order in which they are written -/

mutual

/-- A node and all nodes inside it, each before its parts. -/
def subtree : Node → List Node
  | action id urn params exports => [action id urn params exports]
  | choice id condition yes no => choice id condition yes no :: (listing yes ++ listing no)
  | loop id elements itemAs body => loop id elements itemAs body :: listing body

/-- Nodes that run one after the other, each with all nodes inside it. -/
def listing : List Node → List Node
  | [] => []
  | n :: rest => n.subtree ++ listing rest

end

mutual

/-- `Node.size` counts a node and the nodes inside it. -/
theorem length_subtree : ∀ n : Node, n.subtree.length = n.size
  | action .. => rfl
  | choice _ _ yes no => by
    simp only [subtree, size, List.length_cons, List.length_append, length_listing yes,
      length_listing no]
    omega
  | loop _ _ _ body => by
    simp only [subtree, size, List.length_cons, length_listing body]
    omega

/-- `Node.sizeAll` counts nodes and the nodes inside them. -/
theorem length_listing : ∀ nodes : List Node, (listing nodes).length = sizeAll nodes
  | [] => rfl
  | n :: rest => by
    simp only [listing, sizeAll, List.length_append, length_subtree n, length_listing rest]

end

/-- A node is the first of its subtree. -/
theorem mem_subtree_self (n : Node) : n ∈ n.subtree := by
  cases n <;> exact List.mem_cons_self

/-- A node is listed in the subtree of one of the nodes in a row. -/
theorem mem_listing {nodes : List Node} {n : Node} :
    n ∈ listing nodes ↔ ∃ e ∈ nodes, n ∈ e.subtree := by
  induction nodes with
  | nil => simp [listing]
  | cons e rest ih => simp [listing, ih]

mutual

/-- The nodes inside a node are listed one after the other wherever the node is listed. -/
theorem sublist_subtree {n : Node} : ∀ {e : Node}, n ∈ e.subtree → n.subtree.Sublist e.subtree
  | action .., h => by
    obtain rfl := List.mem_singleton.1 h
    exact List.Sublist.refl _
  | choice _ _ yes no, h => by
    rcases List.mem_cons.1 h with rfl | h
    · exact List.Sublist.refl _
    · refine List.Sublist.cons _ ?_
      rcases List.mem_append.1 h with h | h
      · exact (sublist_listing h).trans (List.sublist_append_left _ _)
      · exact (sublist_listing h).trans (List.sublist_append_right _ _)
  | loop .., h => by
    rcases List.mem_cons.1 h with rfl | h
    · exact List.Sublist.refl _
    · exact (sublist_listing h).cons _

/-- What lies inside a listed node is listed, in the same order. -/
theorem sublist_listing {n : Node} :
    ∀ {nodes : List Node}, n ∈ listing nodes → n.subtree.Sublist (listing nodes)
  | _ :: _, h => by
    rcases List.mem_append.1 h with h | h
    · exact (sublist_subtree h).trans (List.sublist_append_left _ _)
    · exact (sublist_listing h).trans (List.sublist_append_right _ _)

end

/-- Whichever branch is taken, its nodes are inside the choice. -/
theorem listing_branch (b : Bool) (yes no : List Node) :
    listing (if b then yes else no) ⊆ listing yes ++ listing no := by
  intro n hn
  cases b with
  | true => exact List.mem_append_left _ hn
  | false => exact List.mem_append_right _ hn

/-- A node counts itself. -/
theorem size_pos (n : Node) : 0 < n.size := by
  cases n <;> simp only [size] <;> omega

/-- Where nodes that run one after the other stand, the first of them at `start`. -/
def positions (start : Nat) : List Node → List Nat
  | [] => []
  | n :: rest => start :: positions (start + n.size) rest

/-- Nodes in a row are some of the nodes that are listed. -/
theorem length_le_sizeAll (nodes : List Node) : nodes.length ≤ sizeAll nodes := by
  induction nodes with
  | nil => exact Nat.zero_le _
  | cons n rest ih =>
    have := size_pos n
    simp only [List.length_cons, sizeAll]
    omega

/-! ### Entries of nodes -/

/-- What the entry of a node placed at `start` does. -/
def kindAt (start : Nat) : Node → Entry.Kind
  | action _ urn params exports => .action urn params exports
  | choice _ condition yes no =>
    .choice condition (link (start + 1) yes) (link (start + 1 + sizeAll yes) no)
  | loop _ elements itemAs body => .loop elements itemAs (link (start + 1) body)

/-- The entries of the nodes inside a node placed at `start`. -/
def innerEntries (start : Nat) : Node → List Entry
  | action .. => []
  | choice _ _ yes no =>
    entriesAll (start + 1) yes ++ entriesAll (start + 1 + sizeAll yes) no
  | loop _ _ _ body => entriesAll (start + 1) body

/-- The entry of a node comes first, then those of the nodes inside it. -/
theorem entries_eq_cons (start : Nat) (next : Option Nat) (n : Node) :
    n.entries start next = ⟨n.id, n.kindAt start, next⟩ :: n.innerEntries start := by
  cases n <;> simp only [entries, kindAt, innerEntries, id]

mutual

/-- A node takes up as many entries as its size says. -/
theorem length_entries (start : Nat) (next : Option Nat) :
    ∀ n : Node, (n.entries start next).length = n.size
  | action .. => by simp only [entries, size, List.length_cons, List.length_nil]
  | choice _ _ yes no => by
    simp only [entries, size, List.length_cons, List.length_append, length_entriesAll _ yes,
      length_entriesAll _ no]
    omega
  | loop _ _ _ body => by
    simp only [entries, size, List.length_cons, length_entriesAll _ body]
    omega

/-- `length_entries` for nodes in a row. -/
theorem length_entriesAll (start : Nat) :
    ∀ nodes : List Node, (entriesAll start nodes).length = sizeAll nodes
  | [] => by simp only [entriesAll, sizeAll, List.length_nil]
  | n :: rest => by
    simp only [entriesAll, sizeAll, List.length_append, length_entries _ _ n,
      length_entriesAll _ rest]

end

end Node

/-! ### Parts of a list at their place -/

/-- Some elements stand in a list one after the other, the first of them at `start`. -/
def Stands {α : Type} (all : List α) (start : Nat) (part : List α) : Prop :=
  part <+: all.drop start

/-- The first of a part stands at its place, and the rest behind it. -/
theorem stands_cons {α : Type} {all part : List α} {start : Nat} {x : α} :
    Stands all start (x :: part) ↔ all[start]? = some x ∧ Stands all (start + 1) part := by
  unfold Stands
  by_cases h : start < all.length
  · rw [List.drop_eq_getElem_cons h, List.cons_prefix_cons, List.getElem?_eq_getElem h,
      Option.some.injEq, eq_comm]
  · have hnone : all[start]? = none := List.getElem?_eq_none (by omega)
    rw [List.drop_eq_nil_of_le (by omega), hnone]
    simp

/-- Two parts, one behind the other. -/
theorem stands_append {α : Type} {all part part' : List α} {start : Nat} :
    Stands all start (part ++ part') ↔
      Stands all start part ∧ Stands all (start + part.length) part' := by
  induction part generalizing start with
  | nil => simp [Stands]
  | cons x part ih =>
    rw [List.cons_append, stands_cons, ih, stands_cons, List.length_cons, and_assoc,
      show start + 1 + part.length = start + (part.length + 1) by omega]

namespace Node

open Arena

variable {a : Arena}

mutual

/-- The entries of every node inside a node stand at its place in the listing. -/
theorem stands_subtree {start : Nat} {next : Option Nat} :
    ∀ {n : Node}, Stands a start (n.entries start next) →
      ∀ {k : Nat} {m : Node}, n.subtree[k]? = some m →
        ∃ next', Stands a (start + k) (m.entries (start + k) next')
  | n, h, 0, m, hm => by
    have hn : n = m := by
      cases n <;> simpa [subtree] using hm
    exact ⟨next, by simpa [hn] using h⟩
  | action .., _, k + 1, m, hm => by simp [subtree] at hm
  | choice _ _ yes no, h, k + 1, m, hm => by
    rw [entries_eq_cons, stands_cons, innerEntries, stands_append, length_entriesAll] at h
    obtain ⟨_, hyes, hno⟩ := h
    rw [subtree, List.getElem?_cons_succ, List.getElem?_append, length_listing] at hm
    split at hm
    · obtain ⟨next', h'⟩ := stands_listing hyes hm
      exact ⟨next', by rwa [show start + (k + 1) = start + 1 + k by omega]⟩
    · obtain ⟨next', h'⟩ := stands_listing hno hm
      exact ⟨next', by
        rwa [show start + (k + 1) = start + 1 + sizeAll yes + (k - sizeAll yes) by omega]⟩
  | loop _ _ _ body, h, k + 1, m, hm => by
    rw [entries_eq_cons, stands_cons, innerEntries] at h
    rw [subtree, List.getElem?_cons_succ] at hm
    obtain ⟨next', h'⟩ := stands_listing h.2 hm
    exact ⟨next', by rwa [show start + (k + 1) = start + 1 + k by omega]⟩

/-- The entries of every node of a listing stand at its place. -/
theorem stands_listing {start : Nat} :
    ∀ {nodes : List Node}, Stands a start (entriesAll start nodes) →
      ∀ {k : Nat} {m : Node}, (listing nodes)[k]? = some m →
        ∃ next', Stands a (start + k) (m.entries (start + k) next')
  | [], _, k, m, hm => by simp [listing] at hm
  | n :: rest, h, k, m, hm => by
    rw [entriesAll, stands_append, length_entries] at h
    rw [listing, List.getElem?_append, length_subtree] at hm
    split at hm
    · exact stands_subtree h.1 hm
    · obtain ⟨next', h'⟩ := stands_listing h.2 hm
      exact ⟨next', by rwa [show start + k = start + n.size + (k - n.size) by omega]⟩

end

/-! ### Chains -/

/-- **Chains.** The chain of the link to some nodes visits exactly these nodes, in order. -/
theorem follow_link {start fuel : Nat} {nodes : List Node}
    (h : Stands a start (entriesAll start nodes)) (hf : nodes.length ≤ fuel) :
    a.follow fuel (link start nodes) = positions start nodes := by
  induction nodes generalizing start fuel with
  | nil => cases fuel <;> rfl
  | cons n rest ih =>
    cases fuel with
    | zero => exact absurd hf (by simp)
    | succ fuel =>
      rw [entriesAll, stands_append, length_entries] at h
      have hn := h.1
      rw [entries_eq_cons, stands_cons] at hn
      -- The first node links to the rest by the link that the induction is about.
      show a.follow (fuel + 1) (some start) = _
      simp only [follow, hn.1, positions]
      rw [ih h.2 (by simpa using hf)]

/-- Following `next` from the link to some nodes in a row visits them in their order. -/
theorem chain_link {start : Nat} {nodes : List Node}
    (h : Stands a start (entriesAll start nodes)) :
    a.chain (link start nodes) = positions start nodes := by
  -- The arena has an entry for every node, which is fuel enough to follow them all.
  refine follow_link h ?_
  have hlen : (entriesAll start nodes).length ≤ (a.drop start).length := List.IsPrefix.length_le h
  rw [length_entriesAll, List.length_drop] at hlen
  have := length_le_sizeAll nodes
  omega

end Node

/-! ### Links -/

/-- The links of an entry to entries inside its node. -/
def Entry.Kind.links : Entry.Kind → List Nat
  | .action .. => []
  | .choice _ yes no => yes.toList ++ no.toList
  | .loop _ _ body => body.toList

/-- All links of an entry. -/
def Entry.links (e : Entry) : List Nat := e.next.toList ++ e.kind.links

namespace Node

/-- A link to nodes, as the places that it leads to. -/
theorem link_toList (start : Nat) (nodes : List Node) :
    (link start nodes).toList = List.range' start (min 1 (sizeAll nodes)) := by
  cases nodes with
  | nil => rfl
  | cons n rest =>
    have hpos := size_pos n
    rw [show min 1 (sizeAll (n :: rest)) = 1 by simp only [sizeAll]; omega]
    rfl

/-- A range of positions in two parts. -/
theorem count_range'_add (start m n j : Nat) :
    (List.range' start (m + n)).count j =
      (List.range' start m).count j + (List.range' (start + m) n).count j := by
  rw [← List.range'_append_1, List.count_append]

/-- The link to some nodes and one link to every other node among and inside them lead to all
    their places. -/
theorem count_link_add (start : Nat) (nodes : List Node) (j : Nat) :
    (link start nodes).toList.count j + (List.range' (start + 1) (sizeAll nodes - 1)).count j =
      (List.range' start (sizeAll nodes)).count j := by
  rw [link_toList]
  by_cases h : sizeAll nodes = 0
  · simp [h]
  · rw [Nat.min_eq_left (by omega), ← count_range'_add,
      show 1 + (sizeAll nodes - 1) = sizeAll nodes by omega]

mutual

/-- Among the links of a node placed at `start` are the link that leaves it and one link to every
    node inside it. -/
theorem count_links_entries (start : Nat) (next : Option Nat) (j : Nat) :
    ∀ n : Node, ((n.entries start next).flatMap Entry.links).count j =
      next.toList.count j + (List.range' (start + 1) (n.size - 1)).count j
  | action .. => by
    simp [entries, Entry.links, Entry.Kind.links, size]
  | choice _ _ yes no => by
    -- One link leads to each branch, and inside it one to every node but the first.
    have hyes := count_link_add (start + 1) yes j
    have hno := count_link_add (start + 1 + sizeAll yes) no j
    have hall := count_range'_add (start + 1) (sizeAll yes) (sizeAll no) j
    simp only [entries, List.flatMap_cons, List.flatMap_append, List.count_append, Entry.links,
      Entry.Kind.links, size, count_links_entriesAll (start + 1) j yes,
      count_links_entriesAll (start + 1 + sizeAll yes) j no]
    rw [show 1 + sizeAll yes + sizeAll no - 1 = sizeAll yes + sizeAll no by omega]
    omega
  | loop _ _ _ body => by
    have hbody := count_link_add (start + 1) body j
    simp only [entries, List.flatMap_cons, List.count_append, Entry.links, Entry.Kind.links, size,
      count_links_entriesAll (start + 1) j body]
    rw [show 1 + sizeAll body - 1 = sizeAll body by omega]
    omega

/-- **Links.** Among nodes placed at `start`, every position behind `start` is the target of
    exactly one link, and no other position is the target of any. -/
theorem count_links_entriesAll (start j : Nat) :
    ∀ nodes : List Node, ((entriesAll start nodes).flatMap Entry.links).count j =
      (List.range' (start + 1) (sizeAll nodes - 1)).count j
  | [] => by simp [entriesAll, sizeAll]
  | n :: rest => by
    have hpos := size_pos n
    -- The link that leaves the first node is the one to the rest.
    have hn := count_links_entries start (link (start + n.size) rest) j n
    have hrest := count_link_add (start + n.size) rest j
    have hall := count_range'_add (start + 1) (n.size - 1) (sizeAll rest) j
    simp only [entriesAll, List.flatMap_append, List.count_append, hn,
      count_links_entriesAll (start + n.size) j rest, sizeAll]
    rw [show start + 1 + (n.size - 1) = start + n.size by omega] at hall
    rw [show n.size + sizeAll rest - 1 = n.size - 1 + sizeAll rest by omega]
    omega

end

/-- Only the first of some nodes in a row is linked to. -/
theorem mem_link {start : Nat} {nodes : List Node} {j : Nat} (h : j ∈ (link start nodes).toList) :
    j = start ∧ 0 < sizeAll nodes := by
  rw [link_toList, List.mem_range'_1] at h
  omega

/-- The links into a node placed at `start` lead to positions inside it. -/
theorem kindAt_links {start : Nat} {n : Node} {j : Nat} (h : j ∈ (n.kindAt start).links) :
    start < j ∧ j < start + n.size := by
  cases n with
  | action => simp [kindAt, Entry.Kind.links] at h
  | choice _ _ yes no =>
    simp only [kindAt, Entry.Kind.links, List.mem_append] at h
    simp only [size]
    rcases h with h | h
    · have := mem_link h
      omega
    · have := mem_link h
      omega
  | loop _ _ _ body =>
    have := mem_link h
    simp only [size]
    omega

mutual

/-- A link of an entry leads to a later position, of the same node unless it leaves that node. -/
theorem links_entries {start : Nat} {next : Option Nat} :
    ∀ {n : Node} {k : Nat} {e : Entry}, (n.entries start next)[k]? = some e →
      ∀ j ∈ e.links, start + k < j ∧ j < start + n.size ∨ j ∈ next.toList
  | n, 0, e, he, j, hj => by
    rw [entries_eq_cons, List.getElem?_cons_zero, Option.some.injEq] at he
    subst he
    rcases List.mem_append.1 hj with hj | hj
    · exact .inr hj
    · exact .inl (kindAt_links hj)
  | action .., k + 1, e, he, j, hj => by simp [entries] at he
  | choice _ _ yes no, k + 1, e, he, j, hj => by
    rw [entries_eq_cons, List.getElem?_cons_succ, innerEntries, List.getElem?_append,
      length_entriesAll] at he
    simp only [size]
    split at he
    · have := links_entriesAll he j hj
      omega
    · have := links_entriesAll he j hj
      omega
  | loop _ _ _ body, k + 1, e, he, j, hj => by
    rw [entries_eq_cons, List.getElem?_cons_succ, innerEntries] at he
    have := links_entriesAll he j hj
    simp only [size]
    omega

/-- **Links lead forward.** A link among nodes placed at `start` leads from the entry that it
    belongs to to a later one. -/
theorem links_entriesAll {start : Nat} :
    ∀ {nodes : List Node} {k : Nat} {e : Entry}, (entriesAll start nodes)[k]? = some e →
      ∀ j ∈ e.links, start + k < j ∧ j < start + sizeAll nodes
  | [], k, e, he, j, hj => by simp [entriesAll] at he
  | n :: rest, k, e, he, j, hj => by
    have hpos := size_pos n
    rw [entriesAll, List.getElem?_append, length_entries] at he
    simp only [sizeAll]
    split at he
    · -- A link that leaves the first node leads to the start of the rest.
      rcases links_entries he j hj with h | h
      · omega
      · have := mem_link h
        omega
    · have := links_entriesAll he j hj
      omega

end

/-! ### Entries, links and ids of a whole arena -/

/-- The entry at the place of a listed node. -/
theorem getElem?_entriesAll {nodes : List Node} {i : Nat} {n : Node}
    (h : (listing nodes)[i]? = some n) :
    ∃ next, (entriesAll 0 nodes)[i]? = some ⟨n.id, n.kindAt i, next⟩ := by
  have hall : Stands (entriesAll 0 nodes) 0 (entriesAll 0 nodes) := List.prefix_rfl
  obtain ⟨next, hn⟩ := stands_listing hall h
  rw [entries_eq_cons, stands_cons, Nat.zero_add] at hn
  exact ⟨next, hn.1⟩

/-- An arena has the ids of its nodes in the order of `listing`. -/
theorem map_id_entriesAll (nodes : List Node) :
    (entriesAll 0 nodes).map Entry.id = (listing nodes).map Node.id := by
  -- Ids are compared position by position.
  refine List.ext_getElem? fun i => ?_
  rw [List.getElem?_map, List.getElem?_map]
  cases hn : (listing nodes)[i]? with
  | none =>
    rw [List.getElem?_eq_none_iff, length_listing, ← length_entriesAll 0,
      ← List.getElem?_eq_none_iff] at hn
    rw [hn]
    rfl
  | some n =>
    obtain ⟨next, he⟩ := getElem?_entriesAll hn
    rw [he]
    rfl

end Node

namespace Arena

/-- An entry has a link to a position. -/
def Linked (a : Arena) (i j : Nat) : Prop := ∃ e, a[i]? = some e ∧ j ∈ e.links

/-- **Reachability.** Every entry of a graph is reached by links from the first one. -/
theorem reachable_entriesAll (nodes : List Node) :
    ∀ j, j < Node.sizeAll nodes →
      Relation.ReflTransGen (Linked (Node.entriesAll 0 nodes)) 0 j := by
  intro j
  -- Every other entry is the target of a link, which belongs to an earlier entry.
  induction j using Nat.strongRecOn with
  | ind j ih =>
    intro hj
    rcases Nat.eq_zero_or_pos j with rfl | hpos
    · exact .refl
    · have hcount := Node.count_links_entriesAll 0 j nodes
      rw [List.count_range_1', if_pos (by omega)] at hcount
      have hmem := List.count_pos_iff.1 (hcount ▸ Nat.zero_lt_one)
      obtain ⟨e, he, hje⟩ := List.mem_flatMap.1 hmem
      obtain ⟨i, hi⟩ := List.getElem?_of_mem he
      have hij := Node.links_entriesAll hi j hje
      exact (ih i (by omega) (by omega)).tail ⟨e, hi, hje⟩

/-- The entry behind the first ones is changed. -/
theorem modify_length_append (a a' : Arena) (e : Entry) (f : Entry → Entry) :
    List.modify (a ++ e :: a') a.length f = a ++ f e :: a' := by
  induction a with
  | nil => rfl
  | cons e' a ih => exact congrArg (e' :: ·) ih

/-- An entry of the first ones is changed. -/
theorem modify_append {a : Arena} {slot : Nat} (h : slot < a.length) (a' : Arena)
    (f : Entry → Entry) : List.modify (a ++ a') slot f = a.modify slot f ++ a' := by
  induction a generalizing slot with
  | nil => exact absurd h (Nat.not_lt_zero _)
  | cons e a ih =>
    cases slot with
    | zero => rfl
    | succ slot => exact congrArg (e :: ·) (ih (Nat.lt_of_succ_lt_succ h))

/-- An id is found by the ids of the entries alone. -/
theorem find?_eq_findIdx? (a : Arena) (id : String) :
    a.find? id = (a.map Entry.id).findIdx? (· == id) := by
  rw [find?, List.findIdx?_map]
  rfl

/-- A change that keeps ids keeps them at their positions. -/
theorem map_id_modify (a : Arena) (slot : Nat) {f : Entry → Entry} (hf : ∀ e, (f e).id = e.id) :
    (a.modify slot f).map Entry.id = a.map Entry.id := by
  refine List.ext_getElem? fun i => ?_
  rw [List.getElem?_map, List.getElem?_map, List.getElem?_modify]
  cases a[i]? with
  | none => rfl
  | some e =>
    show some (if slot = i then f e else e).id = some e.id
    split
    · rw [hf]
    · rfl

/-- Changing an entry, but for its id, does not change what is found. -/
theorem find?_modify {a : Arena} {slot : Nat} {f : Entry → Entry} (hf : ∀ e, (f e).id = e.id)
    {id : String} : Arena.find? (a.modify slot f) id = a.find? id := by
  rw [find?_eq_findIdx?, find?_eq_findIdx?, map_id_modify a slot hf]

/-- A new entry is found if no earlier one has its id. -/
theorem find?_append_singleton (a : Arena) (e : Entry) (id : String) :
    Arena.find? (a ++ [e]) id = (a.find? id).or (if e.id = id then some a.length else none) := by
  rw [find?, List.findIdx?_append, find?]
  by_cases h : e.id = id
  · simp [h]
  · simp [h]

/-- Where ids are used once, an id finds the position of the entry that has it and no other. -/
theorem find?_eq_some_iff {a : Arena} (h : (a.map Entry.id).Nodup) {id : String} {i : Nat} :
    a.find? id = some i ↔ ∃ e, a[i]? = some e ∧ e.id = id := by
  rw [find?, List.findIdx?_eq_some_iff_getElem]
  constructor
  · rintro ⟨hi, hid, -⟩
    exact ⟨a[i], List.getElem?_eq_getElem hi, by simpa using hid⟩
  · rintro ⟨e, he, rfl⟩
    obtain ⟨hi, rfl⟩ := List.getElem?_eq_some_iff.1 he
    -- No earlier entry has the id, as no other entry has it.
    refine ⟨hi, by simp, fun j hji hj => ?_⟩
    have hne := List.pairwise_iff_getElem.1 h j i (by simp; omega) (by simpa using hi) hji
    simp only [List.getElem_map, beq_iff_eq] at hne hj
    exact hne hj

/-! ### The tree of an arena -/

/-- What is reached from later entries does not depend on the ones before them. -/
theorem drop_chains (start : Nat) (a a' : Arena) :
    (chains start (a ++ a')).drop a.length = chains (start + a.length) a' := by
  induction a generalizing start with
  | nil => rfl
  | cons e a ih =>
    show (chains (start + 1) (a ++ a')).drop a.length = _
    rw [ih, List.length_cons, Nat.add_assoc, Nat.add_comm 1]

/-- A link to later entries leads to the same nodes without the ones before them. -/
theorem reach_append (start : Nat) (a a' : Arena) {link : Option Nat}
    (h : ∀ j ∈ link, start + a.length ≤ j) :
    reach start (chains start (a ++ a')) link =
      reach (start + a.length) (chains (start + a.length) a') link := by
  cases link with
  | none => rfl
  | some j =>
    have hj := h j rfl
    rw [reach, reach, if_pos (by omega), if_pos hj, ← drop_chains, List.getD_eq_getElem?_getD,
      List.getD_eq_getElem?_getD, List.getElem?_drop]
    congr 2
    omega

/-- An entry leads to its node, and by its next link to what is reached from there. -/
theorem reach_cons (start : Nat) (e : Entry) (a : Arena) :
    reach start (chains start (e :: a)) (some start) =
      e.node (reach (start + 1) (chains (start + 1) a)) ::
        reach (start + 1) (chains (start + 1) a) e.next := by
  rw [reach, if_pos (Nat.le_refl _), Nat.sub_self]
  rfl

end Arena

namespace Node

open Arena (reach chains reach_append reach_cons)

/-- A link to nodes does not lead before them. -/
theorem le_of_mem_link {start : Nat} {nodes : List Node} : ∀ j ∈ link start nodes, start ≤ j := by
  intro j hj
  cases nodes with
  | nil => cases hj
  | cons => cases hj; exact Nat.le_refl _

mutual

/-- The entries of a node lead to the node, and to what its next link leads to. -/
theorem reach_entries (start : Nat) (a : Arena) {next : Option Nat} : ∀ n : Node,
    (∀ j ∈ next, start + n.size ≤ j) →
      reach start (chains start (n.entries start next ++ a)) (some start) =
        n :: reach (start + n.size) (chains (start + n.size) a) next
  | action .., _ => by
    rw [entries, List.singleton_append, reach_cons]
    rfl
  | choice id condition yes no, h => by
    have hyes := reach_entriesAll (start + 1) (entriesAll (start + 1 + sizeAll yes) no ++ a) yes
    -- The link to the second branch leads past the first.
    have hno := reach_entriesAll (start + 1 + sizeAll yes) a no
    rw [← length_entriesAll (start + 1) yes, ← reach_append _ _ _ le_of_mem_link,
      length_entriesAll] at hno
    have hsize : (entriesAll (start + 1) yes ++ entriesAll (start + 1 + sizeAll yes) no).length =
        sizeAll yes + sizeAll no := by
      rw [List.length_append, length_entriesAll, length_entriesAll]
    have hafter : ∀ j ∈ next, start + 1 +
        (entriesAll (start + 1) yes ++ entriesAll (start + 1 + sizeAll yes) no).length ≤ j := by
      intro j hj
      have := h j hj
      rw [size] at this
      omega
    have hnext := reach_append _ _ a hafter
    rw [List.append_assoc, hsize, ← Nat.add_assoc] at hnext
    rw [entries, List.cons_append, List.append_assoc, reach_cons, hnext]
    show choice id condition (reach _ _ _) (reach _ _ _) :: _ = _
    rw [hyes, hno, size, ← Nat.add_assoc, ← Nat.add_assoc]
  | loop id elements itemAs body, h => by
    have hbody := reach_entriesAll (start + 1) a body
    have hafter : ∀ j ∈ next, start + 1 + (entriesAll (start + 1) body).length ≤ j := by
      intro j hj
      have := h j hj
      rw [size] at this
      rw [length_entriesAll]
      omega
    have hnext := reach_append _ _ a hafter
    rw [length_entriesAll] at hnext
    rw [entries, List.cons_append, reach_cons, hnext]
    show loop id elements itemAs (reach _ _ _) :: _ = _
    rw [hbody, size, ← Nat.add_assoc]

/-- A link to nodes leads to them, whatever entries come after theirs. -/
theorem reach_entriesAll (start : Nat) (a : Arena) : ∀ nodes : List Node,
    reach start (chains start (entriesAll start nodes ++ a)) (link start nodes) = nodes
  | [] => rfl
  | n :: rest => by
    rw [entriesAll, List.append_assoc]
    exact (reach_entries start _ n le_of_mem_link).trans
      (congrArg (n :: ·) (reach_entriesAll (start + n.size) a rest))

end

end Node

namespace Arena

/-- **Reading a tree.** The links of an arena lead back to the nodes that it lists. -/
theorem reach_chains_arena (nodes : List Node) :
    reach 0 (chains 0 (Node.entriesAll 0 nodes)) (Node.link 0 nodes) = nodes := by
  rw [← List.append_nil (Node.entriesAll 0 nodes)]
  exact Node.reach_entriesAll 0 [] nodes

end Arena

end Runbook
