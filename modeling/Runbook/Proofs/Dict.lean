import Runbook.Dict

namespace Runbook

/-!
# Sorted dictionaries — what looking up and listing give after a change

* `Dict.get?_insert`, `Dict.get?_update` — a change of one key leaves the other keys alone;
* `Dict.get?_extend` — added bindings win over the older ones;
* `Dict.get?_ofList` — of the bindings that are read from a list, the last one of a key wins;
* `Dict.mem_entries` — the listed bindings are the ones that are found;
* `Dict.entries_insert_last` — a key above all others goes to the end of the listing, so that
  binding keys in increasing order lists them as they come;
* `Dict.map_insert`, `Dict.map_update` — a function of the values commutes with changes of one key;
* `Dict.faults` — the bindings at fault, by a rule that picks the faulty values, and how a change of
  one key adds to them.
-/

namespace Dict

universe u v w

variable {κ : Type u} {α : Type v}

/-! ### Looking up -/

@[simp]
theorem get?_empty [LT κ] [DecidableEq κ] (k : κ) : (∅ : Dict κ α).get? k = none := rfl

@[simp]
theorem get?_singleton [LT κ] [DecidableEq κ] (k k' : κ) (a : α) :
    (singleton k a).get? k' = if k' = k then some a else none := rfl

@[simp]
theorem entries_empty [LT κ] : (∅ : Dict κ α).entries = [] := rfl

theorem mem_of_lookupIn [DecidableEq κ] {k : κ} {a : α} {l : List (κ × α)}
    (h : lookupIn k l = some a) : (k, a) ∈ l := by
  induction l with
  | nil => simp [lookupIn] at h
  | cons b rest ih =>
    obtain ⟨k', b⟩ := b
    by_cases hk : k = k'
    · rw [lookupIn, if_pos hk, Option.some.injEq] at h
      rw [hk, h]
      exact List.mem_cons_self
    · rw [lookupIn, if_neg hk] at h
      exact List.mem_cons_of_mem _ (ih h)

section

variable [LT κ] [LE κ] [Std.LawfulOrderLT κ]

/-- The listed bindings are the ones that are found. -/
theorem mem_entries [DecidableEq κ] {d : Dict κ α} {k : κ} {a : α} :
    (k, a) ∈ d.entries ↔ d.get? k = some a := by
  refine ⟨fun h => ?_, mem_of_lookupIn⟩
  have hsorted := d.sorted
  unfold get?
  generalize d.entries = l at h hsorted
  induction l with
  | nil => exact absurd h List.not_mem_nil
  | cons b rest ih =>
    obtain ⟨hb, hrest⟩ := List.pairwise_cons.1 hsorted
    obtain ⟨k', b⟩ := b
    rcases List.mem_cons.1 h with heq | hmem
    · obtain ⟨rfl, rfl⟩ := Prod.mk.inj heq
      rw [lookupIn, if_pos rfl]
    · have hne : k ≠ k' := by
        rintro rfl
        exact Std.lt_irrefl (hb (k, a) hmem)
      rw [lookupIn, if_neg hne]
      exact ih hmem hrest

/-- A key that is kept is bound to the value that is kept for it. -/
theorem get?_filterMap [DecidableEq κ] {β : Type w} (f : κ → α → Option β) (d : Dict κ α) (k : κ) :
    (d.filterMap f).get? k = (d.get? k).bind (f k) := by
  refine Option.ext fun b => ?_
  rw [← mem_entries, filterMap, List.mem_filterMap, Option.bind_eq_some_iff]
  constructor
  · rintro ⟨⟨k', a⟩, hmem, hb⟩
    obtain ⟨b', hb', heq⟩ := Option.map_eq_some_iff.1 hb
    obtain ⟨rfl, rfl⟩ := Prod.mk.inj heq
    exact ⟨a, mem_entries.1 hmem, hb'⟩
  · rintro ⟨a, ha, hb⟩
    exact ⟨(k, a), mem_entries.2 ha, by rw [hb]; rfl⟩

variable [Std.IsLinearOrder κ]

/-- Two keys of which neither is below the other are the same. -/
theorem eq_of_not_lt {k k' : κ} (h : ¬ k < k') (h' : ¬ k' < k) : k = k' := by
  rcases Std.lt_trichotomy k k' with hlt | heq | hgt
  · exact absurd hlt h
  · exact heq
  · exact absurd hgt h'

variable [DecidableLT κ]

theorem lookupIn_insertInto [DecidableEq κ] (k k' : κ) (a : α) (l : List (κ × α)) :
    lookupIn k' (insertInto k a l) = if k' = k then some a else lookupIn k' l := by
  induction l with
  | nil => rfl
  | cons b rest ih =>
    obtain ⟨k₁, b⟩ := b
    unfold insertInto
    by_cases hlt : k < k₁
    · rw [if_pos hlt]
      rfl
    · rw [if_neg hlt]
      by_cases hgt : k₁ < k
      · have hne : k ≠ k₁ := by
          rintro rfl
          exact hlt hgt
        rw [if_pos hgt, lookupIn, lookupIn, ih]
        by_cases hk : k' = k
        · rw [if_pos hk, if_pos hk, if_neg (hk ▸ hne)]
        · rw [if_neg hk, if_neg hk]
      · obtain rfl : k = k₁ := eq_of_not_lt hlt hgt
        rw [if_neg hgt, lookupIn, lookupIn]
        by_cases hk : k' = k
        · rw [if_pos hk, if_pos hk]
        · rw [if_neg hk, if_neg hk, if_neg hk]

/-- Binding a key leaves the other keys alone. -/
theorem get?_insert [DecidableEq κ] (d : Dict κ α) (k k' : κ) (a : α) :
    (d.insert k a).get? k' = if k' = k then some a else d.get? k' :=
  lookupIn_insertInto k k' a d.entries

@[simp]
theorem get?_insert_self [DecidableEq κ] (d : Dict κ α) (k : κ) (a : α) :
    (d.insert k a).get? k = some a := by
  rw [get?_insert, if_pos rfl]

/-- Changing the value under a key leaves the other keys alone. -/
theorem get?_update [DecidableEq κ] (d : Dict κ α) (k k' : κ) (a : α) (f : α → α) :
    (d.update k a f).get? k' = if k' = k then some (f ((d.get? k).getD a)) else d.get? k' :=
  get?_insert d k k' _

@[simp]
theorem get?_update_self [DecidableEq κ] (d : Dict κ α) (k : κ) (a : α) (f : α → α) :
    (d.update k a f).get? k = some (f ((d.get? k).getD a)) := by
  rw [get?_update, if_pos rfl]

/-- What holds of the values of a dictionary, and of one more, holds of all values once it is
    bound. -/
theorem forall_insert [DecidableEq κ] {P : α → Prop} {d : Dict κ α}
    (h : ∀ k a, d.get? k = some a → P a) (k : κ) {a : α} (ha : P a) :
    ∀ k' b, (d.insert k a).get? k' = some b → P b := by
  intro k' b hb
  rw [get?_insert] at hb
  by_cases hk : k' = k
  · rw [if_pos hk] at hb
    exact Option.some.inj hb ▸ ha
  · rw [if_neg hk] at hb
    exact h k' b hb

theorem forall_update [DecidableEq κ] {P : α → Prop} {d : Dict κ α}
    (h : ∀ k a, d.get? k = some a → P a) (k : κ) {a : α} (ha : P a) {f : α → α}
    (hf : ∀ b, P b → P (f b)) : ∀ k' b, (d.update k a f).get? k' = some b → P b := by
  refine forall_insert h k (hf _ ?_)
  cases hold : d.get? k with
  | none => exact ha
  | some b => exact h k b hold

/-- What is bound to a key still is when another key is bound. -/
theorem exists_insert_of_ne [DecidableEq κ] {P : α → Prop} {d : Dict κ α} {k k' : κ}
    (h : ∃ a, d.get? k = some a ∧ P a) (hk : k ≠ k') (b : α) :
    ∃ a, (d.insert k' b).get? k = some a ∧ P a := by
  rwa [get?_insert, if_neg hk]

/-- What holds of the value of a key still does when values are changed by a function that keeps
    it. -/
theorem exists_update [DecidableEq κ] {P : α → Prop} {d : Dict κ α} {k : κ}
    (h : ∃ a, d.get? k = some a ∧ P a) (k' : κ) (b : α) {f : α → α}
    (hf : ∀ a, P a → P (f a)) : ∃ a, (d.update k' b f).get? k = some a ∧ P a := by
  obtain ⟨a, ha, hP⟩ := h
  rw [get?_update]
  by_cases hk : k = k'
  · subst hk
    rw [if_pos rfl, ha]
    exact ⟨f a, rfl, hf a hP⟩
  · exact ⟨a, by rw [if_neg hk, ha], hP⟩

/-- Added bindings win over the older ones. -/
theorem get?_foldl_insert [DecidableEq κ] {l : List (κ × α)}
    (h : l.Pairwise fun a b => a.1 < b.1) (d : Dict κ α) (k : κ) :
    (l.foldl (fun d b => d.insert b.1 b.2) d).get? k = (lookupIn k l).or (d.get? k) := by
  induction l generalizing d with
  | nil => rfl
  | cons b rest ih =>
    obtain ⟨k', a⟩ := b
    obtain ⟨hb, hrest⟩ := List.pairwise_cons.1 h
    rw [List.foldl_cons, ih hrest, get?_insert, lookupIn]
    by_cases hk : k = k'
    · subst hk
      -- No later binding is one of the same key.
      have hnone : lookupIn k rest = none := by
        cases hlookup : lookupIn k rest with
        | none => rfl
        | some a' => exact absurd (hb _ (mem_of_lookupIn hlookup)) Std.lt_irrefl
      rw [if_pos rfl, if_pos rfl, hnone]
      rfl
    · rw [if_neg hk, if_neg hk]

theorem get?_extend [DecidableEq κ] (d e : Dict κ α) (k : κ) :
    (d.extend e).get? k = (e.get? k).or (d.get? k) :=
  get?_foldl_insert e.sorted d k

/-- Of the bindings of a key in a list, the last one wins. -/
theorem get?_ofList [DecidableEq κ] (l : List (κ × α)) (k : κ) :
    (ofList l).get? k = lookupIn k l.reverse := by
  -- The bindings that are read last are bound first in the reversed list.
  induction hl : l.reverse generalizing l with
  | nil =>
    rw [List.reverse_eq_nil_iff] at hl
    rw [hl]
    rfl
  | cons b rest ih =>
    obtain ⟨k', a⟩ := b
    rw [List.reverse_eq_cons_iff] at hl
    have hrest := ih rest.reverse (List.reverse_reverse rest)
    rw [ofList] at hrest
    rw [hl, ofList, List.foldl_append, List.foldl_cons, List.foldl_nil, get?_insert, hrest,
      lookupIn]

/-! ### Binding keys in increasing order -/

theorem insertInto_last {k : κ} {a : α} {l : List (κ × α)} (h : ∀ b ∈ l, b.1 < k) :
    insertInto k a l = l ++ [(k, a)] := by
  induction l with
  | nil => rfl
  | cons b rest ih =>
    have hb : b.1 < k := h b List.mem_cons_self
    have hnot : ¬ k < b.1 := fun hlt => Std.lt_irrefl (Std.lt_trans hlt hb)
    rw [insertInto, if_neg hnot, if_pos hb, ih fun c hc => h c (List.mem_cons_of_mem _ hc)]
    rfl

/-- A key above all others goes to the end of the listing. -/
theorem entries_insert_last {d : Dict κ α} {k : κ} {a : α} (h : ∀ b ∈ d.entries, b.1 < k) :
    (d.insert k a).entries = d.entries ++ [(k, a)] :=
  insertInto_last h

/-- Keys that are bound in increasing order, above all that are bound already, are listed as they
    come. -/
theorem entries_foldl_insert {l : List (κ × α)} (d : Dict κ α)
    (h : (d.entries ++ l).Pairwise fun a b => a.1 < b.1) :
    (l.foldl (fun d b => d.insert b.1 b.2) d).entries = d.entries ++ l := by
  induction l generalizing d with
  | nil => simp
  | cons b rest ih =>
    have hlast : (d.insert b.1 b.2).entries = d.entries ++ [b] :=
      entries_insert_last fun c hc => (List.pairwise_append.1 h).2.2 c hc b List.mem_cons_self
    rw [List.foldl_cons, ih _ (by simpa [hlast] using h), hlast, List.append_assoc,
      List.singleton_append]

/-- Adding bindings to nothing gives just them. -/
@[simp]
theorem empty_extend (d : Dict κ α) : (∅ : Dict κ α).extend d = d :=
  ext (entries_foldl_insert ∅ (by simpa using d.sorted))

end

/-! ### Applying a function to every value -/

section

variable {β : Type w} (f : α → β)

theorem entries_map [LT κ] (d : Dict κ α) :
    (d.map f).entries = d.entries.map fun b => (b.1, f b.2) :=
  congrFun List.filterMap_eq_map d.entries

theorem lookupIn_map [DecidableEq κ] (k : κ) (l : List (κ × α)) :
    lookupIn k (l.map fun b => (b.1, f b.2)) = (lookupIn k l).map f := by
  induction l with
  | nil => rfl
  | cons b rest ih =>
    rw [List.map_cons, lookupIn, lookupIn, ih]
    by_cases hk : k = b.1
    · rw [if_pos hk, if_pos hk]
      rfl
    · rw [if_neg hk, if_neg hk]

theorem get?_map [LT κ] [DecidableEq κ] (d : Dict κ α) (k : κ) :
    (d.map f).get? k = (d.get? k).map f := by
  rw [get?, entries_map, lookupIn_map, get?]

theorem contains_map [LT κ] [DecidableEq κ] (d : Dict κ α) (k : κ) :
    (d.map f).contains k = d.contains k := by
  rw [contains, get?_map, Option.isSome_map, contains]

theorem insertInto_map [LT κ] [DecidableLT κ] (k : κ) (a : α) (l : List (κ × α)) :
    insertInto k (f a) (l.map fun b => (b.1, f b.2)) =
      (insertInto k a l).map fun b => (b.1, f b.2) := by
  induction l with
  | nil => rfl
  | cons b rest ih =>
    rw [List.map_cons, insertInto, insertInto, ih]
    by_cases hlt : k < b.1
    · rw [if_pos hlt, if_pos hlt]
      rfl
    · rw [if_neg hlt, if_neg hlt]
      by_cases hlt' : b.1 < k
      · rw [if_pos hlt', if_pos hlt']
        rfl
      · rw [if_neg hlt', if_neg hlt']
        rfl

variable [LT κ] [LE κ] [Std.IsLinearOrder κ] [Std.LawfulOrderLT κ] [DecidableLT κ]

theorem map_insert (d : Dict κ α) (k : κ) (a : α) :
    (d.insert k a).map f = (d.map f).insert k (f a) := by
  refine ext ?_
  rw [entries_map, insert, insert]
  dsimp only
  rw [entries_map, insertInto_map]

/-- Changing a value before or after comes to the same if the changes correspond. -/
theorem map_update [DecidableEq κ] {g : α → α} {g' : β → β} (h : ∀ a, f (g a) = g' (f a))
    (d : Dict κ α) (k : κ) (a : α) :
    (d.update k a g).map f = (d.map f).update k (f a) g' := by
  rw [update, update, map_insert, get?_map, h]
  cases d.get? k <;> rfl

end

/-! ### Bindings at fault -/

section

variable [LT κ] {β : Type w} (fault : α → Option β)

/-- The keys whose values are at fault, each with its fault. -/
def faults (d : Dict κ α) : List (κ × β) := (d.filterMap fun _ a => fault a).entries

variable {fault}

/-- Of a key that is bound to a faultless value, nothing is listed. -/
theorem fault_of_get? [DecidableEq κ] {d : Dict κ α} (h : d.faults fault = []) {k : κ} {a : α}
    (hk : d.get? k = some a) : fault a = none := by
  have hmem := mem_of_lookupIn hk
  have := List.filterMap_eq_nil_iff.1 h _ hmem
  simpa using this

variable [LE κ] [Std.IsLinearOrder κ] [Std.LawfulOrderLT κ] [DecidableLT κ]

/-- Binding a key where nothing is at fault. -/
theorem faults_insert {d : Dict κ α} (h : d.faults fault = []) (k : κ) (a : α) :
    (d.insert k a).faults fault = ((fault a).map fun b => (k, b)).toList := by
  unfold faults filterMap insert at *
  dsimp only at *
  generalize d.entries = l at *
  have hsingle : [(k, a)].filterMap (fun c : κ × α => (fault c.2).map fun b => (c.1, b)) =
      ((fault a).map fun b => (k, b)).toList := by
    cases hf : fault a <;> simp [hf]
  induction l with
  | nil => exact hsingle
  | cons b rest ih =>
    obtain ⟨k', b⟩ := b
    rw [← List.singleton_append, List.filterMap_append, List.append_eq_nil_iff] at h
    unfold insertInto
    by_cases hlt : k < k'
    · rw [if_pos hlt, ← List.singleton_append, List.filterMap_append, hsingle,
        ← List.singleton_append, List.filterMap_append, h.1, h.2, List.nil_append, List.append_nil]
    · rw [if_neg hlt]
      by_cases hgt : k' < k
      · rw [if_pos hgt, ← List.singleton_append, List.filterMap_append, h.1, List.nil_append]
        exact ih h.2
      · rw [if_neg hgt, ← List.singleton_append, List.filterMap_append, hsingle, h.2,
          List.append_nil]

/-- Changing a value where nothing is at fault, in a way that does not depend on faults. -/
theorem faults_update [DecidableEq κ] {d : Dict κ α} (h : d.faults fault = []) (k : κ) {a : α}
    {f : α → α} {answer : Option β} (ha : fault a = none)
    (hf : ∀ r, fault r = none → fault (f r) = answer) :
    (d.update k a f).faults fault = (answer.map fun b => (k, b)).toList := by
  unfold update
  rw [faults_insert h, hf]
  cases hk : d.get? k with
  | none => exact ha
  | some r => exact fault_of_get? h hk

end

end Dict

end Runbook
