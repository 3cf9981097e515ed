/-!
# Sorted dictionaries

A `Dict κ α` binds keys to values and lists its bindings in increasing key order. The order is
part of the type, so two dictionaries with the same bindings are equal and every listing of one
comes out sorted.

* `Dict.get?`, `Dict.contains` look a key up,
* `Dict.insert` binds a key, replacing an older binding,
* `Dict.extend` adds all bindings of another dictionary, which win over the older ones,
* `Dict.ofList` reads a list of bindings, the last one of a key winning.
-/

namespace Runbook

universe u v w

/-- Finitely many bindings, listed with strictly increasing keys. -/
structure Dict (κ : Type u) (α : Type v) [LT κ] where
  /-- The bindings in key order. -/
  entries : List (κ × α)
  /-- Keys increase strictly, so no key is bound twice. -/
  sorted : entries.Pairwise (fun a b => a.1 < b.1)

namespace Dict

variable {κ : Type u} {α : Type v} [LT κ]

theorem ext {d e : Dict κ α} (h : d.entries = e.entries) : d = e := by
  cases d; cases e; cases h; rfl

instance [DecidableEq κ] [DecidableEq α] : DecidableEq (Dict κ α) := fun d e =>
  if h : d.entries = e.entries then isTrue (ext h) else isFalse (fun he => h (he ▸ rfl))

/-- The dictionary that binds nothing. -/
def empty : Dict κ α := ⟨[], List.Pairwise.nil⟩

instance : EmptyCollection (Dict κ α) := ⟨empty⟩

instance : Inhabited (Dict κ α) := ⟨empty⟩

def isEmpty (d : Dict κ α) : Bool := d.entries.isEmpty

def size (d : Dict κ α) : Nat := d.entries.length

def keys (d : Dict κ α) : List κ := d.entries.map Prod.fst

def values (d : Dict κ α) : List α := d.entries.map Prod.snd

/-- The value bound to a key in a list of bindings. -/
def lookupIn [DecidableEq κ] (k : κ) : List (κ × α) → Option α
  | [] => none
  | (k', a) :: rest => if k = k' then some a else lookupIn k rest

/-- The value bound to `k`. -/
def get? [DecidableEq κ] (d : Dict κ α) (k : κ) : Option α := lookupIn k d.entries

def contains [DecidableEq κ] (d : Dict κ α) (k : κ) : Bool := (d.get? k).isSome

/-! ### Changing values under their keys -/

theorem pairwise_filterMap {β : Type w} {f : κ → α → Option β} {l : List (κ × α)}
    (h : l.Pairwise (fun a b => a.1 < b.1)) :
    (l.filterMap (fun b => (f b.1 b.2).map (b.1, ·))).Pairwise (fun a b => a.1 < b.1) := by
  refine h.filterMap _ fun a a' haa b hb b' hb' => ?_
  simp only [Option.map_eq_some_iff] at hb hb'
  obtain ⟨_, _, rfl⟩ := hb
  obtain ⟨_, _, rfl⟩ := hb'
  exact haa

/-- Keeps the keys for which `f` gives a value, bound to that value. -/
def filterMap {β : Type w} (f : κ → α → Option β) (d : Dict κ α) : Dict κ β :=
  ⟨d.entries.filterMap (fun b => (f b.1 b.2).map (b.1, ·)), pairwise_filterMap d.sorted⟩

/-- Applies `f` to every value. -/
def map {β : Type w} (f : α → β) (d : Dict κ α) : Dict κ β := d.filterMap (fun _ a => some (f a))

/-! ### Binding a key -/

/-- Puts a binding at its place in a sorted list of bindings. -/
def insertInto [DecidableLT κ] (k : κ) (a : α) : List (κ × α) → List (κ × α)
  | [] => [(k, a)]
  | (k', b) :: rest =>
    if k < k' then (k, a) :: (k', b) :: rest
    else if k' < k then (k', b) :: insertInto k a rest
    else (k, a) :: rest

/-- An inserted list holds the new binding and old ones only. -/
theorem mem_insertInto [DecidableLT κ] {k : κ} {a : α} {l : List (κ × α)} {e : κ × α}
    (h : e ∈ insertInto k a l) : e = (k, a) ∨ e ∈ l := by
  induction l with
  | nil => simp only [insertInto, List.mem_singleton] at h; exact .inl h
  | cons b rest ih =>
    obtain ⟨k', b⟩ := b
    simp only [insertInto] at h
    split at h
    · simpa using h
    · split at h
      · rcases List.mem_cons.1 h with h | h
        · exact .inr (h ▸ List.mem_cons_self)
        · exact (ih h).imp_right (List.mem_cons_of_mem _)
      · rcases List.mem_cons.1 h with h | h
        · exact .inl h
        · exact .inr (List.mem_cons_of_mem _ h)

variable [LE κ] [Std.IsLinearOrder κ] [Std.LawfulOrderLT κ]

theorem pairwise_insertInto [DecidableLT κ] {k : κ} {a : α} {l : List (κ × α)}
    (h : l.Pairwise (fun a b => a.1 < b.1)) :
    (insertInto k a l).Pairwise (fun a b => a.1 < b.1) := by
  induction l with
  | nil => exact List.pairwise_singleton _ _
  | cons b rest ih =>
    obtain ⟨k', b⟩ := b
    obtain ⟨hb, hr⟩ := List.pairwise_cons.1 h
    simp only [insertInto]
    split
    · rename_i hk
      refine List.pairwise_cons.2 ⟨fun e he => ?_, h⟩
      rcases List.mem_cons.1 he with rfl | he
      · exact hk
      · exact Std.lt_trans hk (hb e he)
    · rename_i hk
      split
      · rename_i hk'
        refine List.pairwise_cons.2 ⟨fun e he => ?_, ih hr⟩
        rcases mem_insertInto he with rfl | he
        · exact hk'
        · exact hb e he
      · rename_i hk'
        have hkk : k = k' := by
          rcases Std.lt_trichotomy k k' with h | h | h
          · exact absurd h hk
          · exact h
          · exact absurd h hk'
        exact List.pairwise_cons.2 ⟨fun e he => hkk ▸ hb e he, hr⟩

/-- Binds `k` to `a`, in place of what `k` was bound to before. -/
def insert [DecidableLT κ] (d : Dict κ α) (k : κ) (a : α) : Dict κ α :=
  ⟨insertInto k a d.entries, pairwise_insertInto d.sorted⟩

/-- The dictionary with one binding. -/
def singleton (k : κ) (a : α) : Dict κ α := ⟨[(k, a)], List.pairwise_singleton _ _⟩

/-- Adds the bindings of `e`, which win over those of `d`. -/
def extend [DecidableLT κ] (d e : Dict κ α) : Dict κ α :=
  e.entries.foldl (fun d b => d.insert b.1 b.2) d

/-- The last binding of each key wins. -/
def ofList [DecidableLT κ] (bindings : List (κ × α)) : Dict κ α :=
  bindings.foldl (fun d b => d.insert b.1 b.2) empty

/-- Changes the value under `k`, `a` standing in for a missing one. -/
def update [DecidableEq κ] [DecidableLT κ] (d : Dict κ α) (k : κ) (a : α) (f : α → α) : Dict κ α :=
  d.insert k (f ((d.get? k).getD a))

end Dict

end Runbook
