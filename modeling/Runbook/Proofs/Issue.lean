import Runbook.Issue

namespace Runbook

/-!
# The order of issues

Issues are reported in the order of `Issue.precedes`, a total preorder.  Sorting keeps issues that
the order does not tell apart in their places, so it does not matter whether issues are picked
before they are sorted or after.

* `Issue.precedes_trans`, `Issue.precedes_total` — the order is a total preorder;
* `Issue.Exceeds`, `Issue.Ties` — the order, field by field: `Issue.precedes_iff`;
* `Issue.hasErrors_sort`, `Issue.filter_sort` — what sorting leaves as it is;
* `Issue.filter_ties_sort` — ties keep their places.
-/

/-! ### What issues are compared by -/

instance : Std.TransOrd Severity where
  eq_swap {a b} := by cases a <;> cases b <;> rfl
  isLE_trans {a b c} := by cases a <;> cases b <;> cases c <;> decide

instance : Std.LawfulEqOrd Severity where
  compare_self {a} := by cases a <;> rfl
  eq_of_compare {a b} := by cases a <;> cases b <;> decide

/-- Keys are compared as texts. -/
theorem Segment.compare_key (a b : String) : compare (key a) (key b) = compare a b :=
  Ordering.then_eq

/-- Positions are compared as numbers. -/
theorem Segment.compare_index (i j : Nat) : compare (index i) (index j) = compare i j :=
  Ordering.then_eq

/-- A key comes before an index. -/
instance : Std.TransOrd Segment where
  eq_swap {a b} := by
    cases a <;> cases b
    case key.key a b =>
      rw [Segment.compare_key, Segment.compare_key]
      exact Std.OrientedCmp.eq_swap
    case index.index i j =>
      rw [Segment.compare_index, Segment.compare_index]
      exact Std.OrientedCmp.eq_swap
    all_goals rfl
  isLE_trans {a b c} hab hbc := by
    cases a <;> cases b <;> cases c
    case key.key.key a b c =>
      rw [Segment.compare_key] at *
      exact Std.TransCmp.isLE_trans hab hbc
    case index.index.index i j k =>
      rw [Segment.compare_index] at *
      exact Std.TransCmp.isLE_trans hab hbc
    all_goals first
      | rfl
      | exact absurd hab (show ¬ Ordering.gt.isLE = true by decide)
      | exact absurd hbc (show ¬ Ordering.gt.isLE = true by decide)

instance : Std.LawfulEqOrd Segment where
  compare_self {a} := by
    cases a with
    | key a => exact (Segment.compare_key a a).trans Std.ReflCmp.compare_self
    | index i => exact (Segment.compare_index i i).trans Std.ReflCmp.compare_self
  eq_of_compare {a b} h := by
    cases a <;> cases b
    case key.key a b =>
      rw [Segment.compare_key] at h
      rw [Std.LawfulEqCmp.eq_of_compare h]
    case index.index i j =>
      rw [Segment.compare_index] at h
      rw [Std.LawfulEqCmp.eq_of_compare h]
    all_goals cases h

/-- Locations are compared segment by segment, a prefix first. -/
theorem Location.compare_eq (a b : Location) : compare a b = compare a.segments b.segments :=
  Ordering.then_eq

instance : Std.TransOrd Location where
  eq_swap {a b} := by
    rw [Location.compare_eq, Location.compare_eq]
    exact Std.OrientedCmp.eq_swap
  isLE_trans {a b c} hab hbc := by
    rw [Location.compare_eq] at *
    exact Std.TransCmp.isLE_trans hab hbc

instance : Std.LawfulEqOrd Location where
  compare_self {a} := by
    rw [Location.compare_eq]
    exact Std.ReflCmp.compare_self
  eq_of_compare {a b} h := by
    rw [Location.compare_eq] at h
    exact congrArg Location.mk (Std.LawfulEqCmp.eq_of_compare h : a.segments = b.segments)

namespace Issue

instance : Std.TransCmp Issue.compare :=
  inferInstanceAs <| Std.TransCmp <| compareLex (compareOn severity) <|
    compareLex (compareOn kind) <| compareLex (compareOn location) <|
      compareLex (compareOn message) (compareOn nodeId)

/-- `Issue.precedes` is transitive, as `List.mergeSort` needs it. -/
theorem precedes_trans (a b c : Issue) (hab : a.precedes b = true) (hbc : b.precedes c = true) :
    a.precedes c = true :=
  Std.TransCmp.isLE_trans hab hbc

/-- Of two issues one precedes the other. -/
theorem precedes_total (a b : Issue) : (a.precedes b || b.precedes a) = true := by
  have hswap : b.compare a = (a.compare b).swap := Std.OrientedCmp.eq_swap
  rw [precedes, precedes, hswap]
  cases a.compare b <;> rfl

/-! ### The order by fields -/

/-- Where two issues first differ, `a` has the greater part. -/
def Exceeds (a b : Issue) : Prop :=
  Ord.compare a.severity b.severity = .gt ∨
    a.severity = b.severity ∧ (Ord.compare a.kind b.kind = .gt ∨
      a.kind = b.kind ∧ (Ord.compare a.location b.location = .gt ∨
        a.location = b.location ∧ (Ord.compare a.message b.message = .gt ∨
          a.message = b.message ∧ Ord.compare a.nodeId b.nodeId = .gt)))

/-- Issues that differ in their references at most. -/
def Ties (a b : Issue) : Prop :=
  a.severity = b.severity ∧ a.kind = b.kind ∧ a.location = b.location ∧ a.message = b.message ∧
    a.nodeId = b.nodeId

instance (a b : Issue) : Decidable (a.Ties b) := inferInstanceAs (Decidable (_ ∧ _))

/-- `Issue.precedes` by the fields of `Issue.Exceeds`. -/
theorem precedes_iff {a b : Issue} : a.precedes b = true ↔ ¬ a.Exceeds b := by
  rw [precedes, Ordering.isLE_iff_ne_gt, Issue.compare, Exceeds]
  simp only [Ordering.then_eq_gt, Std.LawfulEqCmp.compare_eq_iff_eq]

/-- An issue may stand before and behind one that it ties with. -/
theorem Ties.precedes {a b : Issue} (h : a.Ties b) : a.precedes b = true := by
  obtain ⟨hseverity, hkind, hlocation, hmessage, hnode⟩ := h
  rw [Issue.precedes, Issue.compare, hseverity, hkind, hlocation, hmessage, hnode]
  simp only [Std.ReflCmp.compare_self, Ordering.eq_then]
  rfl

/-- Issues that tie with the same issue tie with one another. -/
theorem Ties.of_common {a b c : Issue} (hb : a.Ties b) (hc : a.Ties c) : b.Ties c :=
  ⟨hb.1.symm.trans hc.1, hb.2.1.symm.trans hc.2.1, hb.2.2.1.symm.trans hc.2.2.1,
    hb.2.2.2.1.symm.trans hc.2.2.2.1, hb.2.2.2.2.symm.trans hc.2.2.2.2⟩

/-! ### Sorting -/

/-- Sorting keeps the issues, so there is an error after it if there was one before. -/
theorem hasErrors_sort (issues : List Issue) : hasErrors (sort issues) = hasErrors issues := by
  rw [Bool.eq_iff_iff, hasErrors, hasErrors, List.any_eq_true, List.any_eq_true]
  simp [sort]

/-- Where an issue goes among issues that are sorted: behind all that it may not stand before. -/
theorem sort_cons (a : Issue) (issues : List Issue) :
    sort (a :: issues) = (sort issues).filter (fun b => !a.precedes b) ++
        a :: (sort issues).filter a.precedes ∧
      sort issues = (sort issues).filter (fun b => !a.precedes b) ++
        (sort issues).filter a.precedes := by
  obtain ⟨l₁, l₂, hsort, hrest, hbefore⟩ :=
    List.mergeSort_cons precedes_trans precedes_total a issues
  have hsorted : (l₁ ++ a :: l₂).Pairwise fun a b => a.precedes b = true :=
    hsort ▸ List.pairwise_mergeSort precedes_trans precedes_total (a :: issues)
  have hafter : ∀ b ∈ l₂, a.precedes b = true :=
    (List.pairwise_cons.1 (List.pairwise_append.1 hsorted).2.1).1
  have h₁ : l₁.filter a.precedes = [] :=
    List.filter_eq_nil_iff.2 fun b hb => by simpa using hbefore b hb
  have h₂ : l₂.filter (fun b => !a.precedes b) = [] :=
    List.filter_eq_nil_iff.2 fun b hb => by simpa using hafter b hb
  rw [sort, sort, hsort, hrest, List.filter_append, List.filter_append, h₁, h₂,
    List.filter_eq_self.2 hbefore, List.filter_eq_self.2 hafter, List.append_nil, List.nil_append]
  exact ⟨rfl, rfl⟩

/-- **Picking and sorting.** Issues that are picked after sorting are in the order in which they
    would have been sorted. -/
theorem filter_sort (p : Issue → Bool) (issues : List Issue) :
    (sort issues).filter p = sort (issues.filter p) := by
  induction issues with
  | nil => simp [sort]
  | cons a rest ih =>
    obtain ⟨hcons, hrest⟩ := sort_cons a rest
    rw [hcons, List.filter_append, List.filter_cons]
    by_cases ha : p a = true
    · rw [if_pos ha, List.filter_cons_of_pos ha, (sort_cons a _).1, ← ih, List.filter_filter,
        List.filter_filter, List.filter_filter, List.filter_filter]
      simp only [Bool.and_comm]
    · -- Without `a`, what goes before it and what goes after it is the sorted rest.
      rw [if_neg ha, List.filter_cons_of_neg ha, ← ih, ← List.filter_append, ← hrest]

/-- Issues that tie with a given one keep the order they were found in. -/
theorem filter_ties_sort (a : Issue) (issues : List Issue) :
    (sort issues).filter (fun b => decide (a.Ties b)) =
      issues.filter (fun b => decide (a.Ties b)) := by
  rw [filter_sort, sort]
  refine List.mergeSort_of_pairwise (List.pairwise_iff_forall_sublist.2 fun {b c} hbc => ?_)
  have hties : ∀ d ∈ [b, c], a.Ties d := fun d hd =>
    of_decide_eq_true (List.mem_filter.1 (hbc.subset hd)).2
  exact ((hties b (by simp)).of_common (hties c (by simp))).precedes

/-- No issue of a sorted list exceeds a later one. -/
theorem pairwise_sort (issues : List Issue) :
    (sort issues).Pairwise fun a b => ¬ a.Exceeds b :=
  (List.pairwise_mergeSort precedes_trans precedes_total issues).imp precedes_iff.1

end Issue

end Runbook
