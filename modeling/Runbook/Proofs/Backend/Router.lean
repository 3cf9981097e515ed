import Mathlib.Data.List.Basic
import Runbook.Backend.Router

namespace Runbook

/-!
# Routing calls — the longest prefix

A router compares registrations by the length of their prefixes.  This file says what a route is in
terms of the registrations alone, without their positions.

* `Registration.eq_of_fits` — prefixes of one urn that are equally long are equal;
* `Router.best` — the registrations that fit an urn while no longer prefix does;
* `Router.map_snd_candidates` — they are the ones that a route is chosen from;
* `Router.route_ambiguous_iff` — a route is ambiguous if there are several of them.
-/

/-! ### Prefixes of an urn -/

namespace Registration

variable {r r' : Registration} {urn : String}

theorem fits_iff : r.fits urn = true ↔ r.urnPrefix.toList <+: urn.toList :=
  List.isPrefixOf_iff_prefix

theorem fits_of_empty (h : r.urnPrefix = "") : r.fits urn = true := by
  rw [fits_iff, h]
  exact List.nil_prefix

theorem length_eq_zero : r.length = 0 ↔ r.urnPrefix = "" := String.utf8ByteSize_eq_zero_iff

/-- A text that begins with another one and is as long is that text. -/
theorem eq_of_prefix_of_size {s t : String} (h : s.toList <+: t.toList)
    (hlength : s.utf8ByteSize = t.utf8ByteSize) : s = t := by
  obtain ⟨rest, hrest⟩ := h
  have ht : t = s ++ String.ofList rest := by
    rw [← String.ofList_toList (s := t), ← hrest, String.ofList_append, String.ofList_toList]
  rw [ht, String.utf8ByteSize_append] at hlength
  have hempty : String.ofList rest = "" := String.utf8ByteSize_eq_zero_iff.1 (by omega)
  rw [ht, hempty, String.append_empty]

/-- Prefixes of one urn that are equally long are equal. -/
theorem eq_of_fits (h : r.fits urn = true) (h' : r'.fits urn = true)
    (hlength : r.length = r'.length) : r.urnPrefix = r'.urnPrefix := by
  -- Of two prefixes of one text, the one begins with the other.
  rcases List.prefix_or_prefix_of_prefix (fits_iff.1 h) (fits_iff.1 h') with hpre | hpre
  · exact eq_of_prefix_of_size hpre hlength
  · exact (eq_of_prefix_of_size hpre hlength.symm).symm

end Registration

/-! ### Candidates -/

namespace Router

variable {r : Router} {urn : String}

/-- The registrations that fit an urn while no longer prefix does. -/
def best (r : Router) (urn : String) : List Registration :=
  (r.registrations.filter fun g => g.fits urn).filter fun g =>
    decide (∀ g' ∈ r.registrations, g'.fits urn = true → g'.length ≤ g.length)

theorem mem_best {g : Registration} : g ∈ r.best urn ↔ g ∈ r.registrations ∧ g.fits urn = true ∧
    ∀ g' ∈ r.registrations, g'.fits urn = true → g'.length ≤ g.length := by
  rw [best, List.mem_filter, List.mem_filter, decide_eq_true_eq, and_assoc]

/-- The best registrations are equally long prefixes of the urn, so they share one. -/
theorem urnPrefix_eq_of_best {g g' : Registration} (h : g ∈ r.best urn) (h' : g' ∈ r.best urn) :
    g.urnPrefix = g'.urnPrefix := by
  obtain ⟨hmem, hfits, hlongest⟩ := mem_best.1 h
  obtain ⟨hmem', hfits', hlongest'⟩ := mem_best.1 h'
  exact Registration.eq_of_fits hfits hfits'
    (Nat.le_antisymm (hlongest' g hmem hfits) (hlongest g' hmem' hfits'))

/-- The registrations among which the route of an urn is chosen, with their positions. -/
def candidates (r : Router) (urn : String) : List (Nat × Registration) :=
  (r.fitting urn).filter fun p => p.2.length == longest (r.fitting urn)

theorem map_snd_fitting (r : Router) (urn : String) :
    (r.fitting urn).map Prod.snd = r.registrations.filter (fun g => g.fits urn) := by
  -- Positions may start anywhere.
  have hfrom : ∀ (l : List Registration) (start : Nat),
      ((l.zipIdx start).filterMap fun p => if p.1.fits urn then some (p.2, p.1) else none).map
        Prod.snd = l.filter (fun g => g.fits urn) := by
    intro l
    induction l with
    | nil => exact fun _ => rfl
    | cons g rest ih =>
      intro start
      rw [List.zipIdx_cons, List.filterMap_cons]
      by_cases hg : g.fits urn = true
      · simp [hg, ih]
      · simp [hg, ih]
  exact hfrom r.registrations 0

theorem foldl_longest (l : List (Nat × Registration)) : ∀ n,
    n ≤ l.foldl (fun n p => max n p.2.length) n ∧
    (∀ p ∈ l, p.2.length ≤ l.foldl (fun n p => max n p.2.length) n) ∧
    (l.foldl (fun n p => max n p.2.length) n = n ∨
      ∃ p ∈ l, p.2.length = l.foldl (fun n p => max n p.2.length) n) := by
  induction l with
  | nil => exact fun n => ⟨Nat.le_refl n, by simp, .inl rfl⟩
  | cons q rest ih =>
    intro n
    rw [List.foldl_cons]
    obtain ⟨hle, hmem, hreached⟩ := ih (max n q.2.length)
    refine ⟨by omega, ?_, ?_⟩
    · intro p hp
      rcases List.mem_cons.1 hp with rfl | hp
      · omega
      · exact hmem p hp
    · rcases hreached with heq | ⟨p, hp, heq⟩
      · -- The greatest length is that of the first one, or the one to begin with.
        rcases Nat.le_total n q.2.length with hn | hn
        · exact .inr ⟨q, List.mem_cons_self, by omega⟩
        · exact .inl (by omega)
      · exact .inr ⟨p, List.mem_cons_of_mem q hp, heq⟩

/-- A length is the longest one exactly if no other one is longer. -/
theorem length_eq_longest_iff {l : List (Nat × Registration)} {p : Nat × Registration}
    (hp : p ∈ l) : p.2.length = longest l ↔ ∀ q ∈ l, q.2.length ≤ p.2.length := by
  obtain ⟨-, hle, hreached⟩ := foldl_longest l 0
  constructor
  · intro h q hq
    rw [h]
    exact hle q hq
  · intro h
    have hp := hle p hp
    refine Nat.le_antisymm hp ?_
    rcases hreached with heq | ⟨q, hq, heq⟩
    · exact le_of_eq_of_le heq (Nat.zero_le _)
    · exact le_of_eq_of_le heq.symm (h q hq)

/-- **Candidates.** A route is chosen from the registrations that fit while no longer prefix
    does. -/
theorem map_snd_candidates (r : Router) (urn : String) :
    (r.candidates urn).map Prod.snd = r.best urn := by
  have hfitting : ∀ g, g ∈ (r.fitting urn).map Prod.snd ↔
      g ∈ r.registrations ∧ g.fits urn = true := by
    intro g
    rw [map_snd_fitting, List.mem_filter]
  -- Among the ones that fit, it is the same to be one of the longest and to have none longer.
  have hlongest : ∀ p ∈ r.fitting urn, (p.2.length == longest (r.fitting urn)) =
      decide (∀ g' ∈ r.registrations, g'.fits urn = true → g'.length ≤ p.2.length) := by
    intro p hp
    rw [Bool.eq_iff_iff, beq_iff_eq, length_eq_longest_iff hp, decide_eq_true_eq]
    constructor
    · intro h g' hg' hfits
      obtain ⟨q, hq, rfl⟩ := List.mem_map.1 ((hfitting g').2 ⟨hg', hfits⟩)
      exact h q hq
    · intro h q hq
      obtain ⟨hmem, hfits⟩ := (hfitting q.2).1 (List.mem_map_of_mem hq)
      exact h q.2 hmem hfits
  rw [candidates, List.filter_congr hlongest, best, ← map_snd_fitting, List.filter_map]
  rfl

/-- Where no prefix fits but the empty one, the registrations with the empty prefix are the best. -/
theorem best_eq_of_empty
    (h : ∀ g ∈ r.registrations, g.fits urn = true → g.urnPrefix = "") :
    r.best urn = r.registrations.filter fun g => g.urnPrefix == "" := by
  rw [best, List.filter_filter]
  refine List.filter_congr fun g hg => ?_
  rw [Bool.eq_iff_iff, Bool.and_eq_true, decide_eq_true_eq, beq_iff_eq]
  constructor
  · exact fun hbest => h g hg hbest.2
  · intro hempty
    refine ⟨fun g' hg' hfits => ?_, Registration.fits_of_empty hempty⟩
    rw [Registration.length_eq_zero.2 (h g' hg' hfits)]
    exact Nat.zero_le _

/-- Where the empty prefix is among the best, no other prefix fits. -/
theorem eq_empty_of_best {g : Registration} (hg : g ∈ r.best urn) (hempty : g.urnPrefix = "") :
    ∀ g' ∈ r.registrations, g'.fits urn = true → g'.urnPrefix = "" := by
  intro g' hg' hfits
  have hlength := (mem_best.1 hg).2.2 g' hg' hfits
  rw [Registration.length_eq_zero.2 hempty] at hlength
  exact Registration.length_eq_zero.1 (by omega)

/-- A prefix that the best registrations share is registered as often as there are best ones. -/
theorem length_best_le_count {prefixText : String}
    (h : ∀ g ∈ r.best urn, g.urnPrefix = prefixText) :
    (r.best urn).length ≤ (r.registrations.map Registration.urnPrefix).count prefixText := by
  have hsub : (r.best urn).Sublist r.registrations := List.filter_sublist.trans List.filter_sublist
  have hcount : ((r.best urn).map Registration.urnPrefix).count prefixText =
      (r.best urn).length := by
    rw [List.count_eq_length.2, List.length_map]
    intro s hs
    obtain ⟨g, hg, rfl⟩ := List.mem_map.1 hs
    exact (h g hg).symm
  rw [← hcount]
  exact (hsub.map Registration.urnPrefix).count_le prefixText

/-! ### Ambiguous routes -/

theorem route_eq (r : Router) (urn : String) : r.route urn =
    match r.candidates urn with
    | [] => .error (.noRoute urn)
    | [p] => .ok p.1
    | p :: q :: rest =>
      .error (.ambiguousRoute urn p.2.urnPrefix ((p :: q :: rest).map fun p => p.2.name)) := rfl

/-- **Ambiguity.** A route is ambiguous if several registrations fit while no longer prefix does,
    and then the error names all of these and the prefix that they share. -/
theorem route_ambiguous_iff {u prefixText : String} {names : List String} :
    r.route urn = .error (.ambiguousRoute u prefixText names) ↔
      u = urn ∧ 1 < (r.best urn).length ∧ (∀ g ∈ r.best urn, g.urnPrefix = prefixText) ∧
        names = (r.best urn).map Registration.name := by
  rw [route_eq, ← map_snd_candidates]
  have hmem : ∀ g ∈ (r.candidates urn).map Prod.snd, g ∈ r.best urn := by
    rw [map_snd_candidates]
    exact fun g hg => hg
  match hc : r.candidates urn with
  | [] => simp
  | [p] => simp
  | p :: q :: rest =>
    rw [hc] at hmem
    have hshared : ∀ g ∈ (p :: q :: rest).map Prod.snd, g.urnPrefix = p.2.urnPrefix :=
      fun g hg => urnPrefix_eq_of_best (hmem g hg) (hmem p.2 (by simp))
    simp only [Except.error.injEq, ActionError.ambiguousRoute.injEq, List.map_map]
    constructor
    · rintro ⟨rfl, rfl, rfl⟩
      exact ⟨rfl, by simp, hshared, rfl⟩
    · rintro ⟨rfl, -, hall, rfl⟩
      exact ⟨rfl, hall p.2 (by simp), rfl⟩

end Router

end Runbook
