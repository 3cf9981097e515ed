import Runbook.Proofs.Backend.Router

namespace Runbook

/-!
# Routing calls — the registration that answers

A route is a position in the list of registrations.  It is found in two passes, one for the longest
length and one for the positions at that length; this file says what comes out of both in terms of
prefixes, lengths and positions alone.

* `Router.Leads` — the registration at a position fits, and no longer prefix does;
* `Router.mem_candidates` — these are the ones that a route is chosen from;
* `Router.exists_leads` — there is one as soon as any prefix fits;
* `Router.sameRoute_of_perm` — the order of registration makes no difference to a route;
* `Router.execute_withAnswers` — neither do the backends, of which only the chosen one answers;
* `Router.routes_by_prefix` — what a router does with calls.
-/

namespace Router

/-- The registration at a position leads: its prefix is one of the urn, and no longer prefix is. -/
def Leads (r : Router) (urn : String) (i : Nat) (g : Registration) : Prop :=
  r.registrations[i]? = some g ∧ g.urnPrefix.toList <+: urn.toList ∧
    ∀ g' ∈ r.registrations, g'.urnPrefix.toList <+: urn.toList →
      g'.urnPrefix.utf8ByteSize ≤ g.urnPrefix.utf8ByteSize

variable {r r' : Router} {urn : String} {i j : Nat} {g g' : Registration}

/-! ### Positions of the candidates -/

theorem mem_fitting :
    (i, g) ∈ r.fitting urn ↔ r.registrations[i]? = some g ∧ g.fits urn = true := by
  rw [fitting, List.mem_filterMap]
  simp only [Option.ite_none_right_eq_some, Option.some.injEq, Prod.mk.injEq]
  constructor
  · rintro ⟨⟨g, i⟩, hmem, hfits, rfl, rfl⟩
    exact ⟨List.mk_mem_zipIdx_iff_getElem?.1 hmem, hfits⟩
  · rintro ⟨hi, hfits⟩
    exact ⟨(g, i), List.mk_mem_zipIdx_iff_getElem?.2 hi, by simp [hfits]⟩

/-- The candidates are the registrations that lead. -/
theorem mem_candidates : (i, g) ∈ r.candidates urn ↔ r.Leads urn i g := by
  rw [candidates, List.mem_filter, mem_fitting, Leads, and_assoc, Registration.fits_iff]
  refine and_congr_right fun hi => and_congr_right fun hfits => ?_
  have hmem : (i, g) ∈ r.fitting urn := mem_fitting.2 ⟨hi, Registration.fits_iff.2 hfits⟩
  rw [beq_iff_eq, length_eq_longest_iff hmem]
  constructor
  · intro h g' hg' hfits'
    obtain ⟨j, hj⟩ := List.mem_iff_getElem?.1 hg'
    exact h (j, g') (mem_fitting.2 ⟨hj, Registration.fits_iff.2 hfits'⟩)
  · rintro h ⟨j, g'⟩ hq
    obtain ⟨hj, hfits'⟩ := mem_fitting.1 hq
    exact h g' (List.mem_of_getElem? hj) (Registration.fits_iff.1 hfits')

/-- Candidates come in the order of registration. -/
theorem pairwise_candidates (r : Router) (urn : String) :
    (r.candidates urn).Pairwise fun p q => p.1 < q.1 := by
  have hpositions : (r.registrations.zipIdx.map Prod.snd).Pairwise (· < ·) := by
    rw [List.zipIdx_map_snd]
    exact List.pairwise_lt_range' 1
  have hfitting : (r.fitting urn).Pairwise fun p q => p.1 < q.1 := by
    refine (List.pairwise_map.1 hpositions).filterMap _ fun p q hpq p' hp' q' hq' => ?_
    simp only [Option.ite_none_right_eq_some, Option.some.injEq] at hp' hq'
    obtain ⟨⟨-, rfl⟩, -, rfl⟩ := And.intro hp' hq'
    exact hpq
  exact hfitting.sublist List.filter_sublist

/-- Where some prefix fits, one of them leads. -/
theorem exists_leads (hg : g ∈ r.registrations) (hfits : g.urnPrefix.toList <+: urn.toList) :
    ∃ j g', r.Leads urn j g' := by
  obtain ⟨i, hi⟩ := List.mem_iff_getElem?.1 hg
  have hmem : (i, g) ∈ r.fitting urn := mem_fitting.2 ⟨hi, Registration.fits_iff.2 hfits⟩
  obtain ⟨-, hle, hreached⟩ := foldl_longest (r.fitting urn) 0
  -- The longest length is that of one of them, also if it is zero.
  obtain ⟨⟨j, g'⟩, hfitting, hlength⟩ :
      ∃ p ∈ r.fitting urn, p.2.length = longest (r.fitting urn) := by
    rcases hreached with hzero | hreached
    · have hlength := hle (i, g) hmem
      exact ⟨(i, g), hmem, by unfold longest; omega⟩
    · exact hreached
  have hcandidate : (j, g') ∈ r.candidates urn :=
    List.mem_filter.2 ⟨hfitting, beq_iff_eq.2 hlength⟩
  exact ⟨j, g', mem_candidates.1 hcandidate⟩

/-- The best registrations are the ones that lead somewhere. -/
theorem mem_best_iff_leads : g ∈ r.best urn ↔ ∃ i, r.Leads urn i g := by
  simp only [← map_snd_candidates, List.mem_map, Prod.exists, exists_eq_right, mem_candidates]

/-- A prefix that fits is shorter than one that leads, or it leads as well. -/
theorem Leads.lt_or_leads (h : r.Leads urn i g) (hj : r.registrations[j]? = some g')
    (hfits : g'.urnPrefix.toList <+: urn.toList) :
    g'.urnPrefix.utf8ByteSize < g.urnPrefix.utf8ByteSize ∨ r.Leads urn j g' := by
  obtain ⟨-, -, hlongest⟩ := h
  have hle := hlongest g' (List.mem_of_getElem? hj) hfits
  rcases Nat.lt_or_eq_of_le hle with hlt | heq
  · exact .inl hlt
  · exact .inr ⟨hj, hfits, heq ▸ hlongest⟩

/-- There is one candidate if only one registration leads. -/
theorem candidates_eq_singleton : r.candidates urn = [(i, g)] ↔
    r.Leads urn i g ∧ ∀ j g', r.Leads urn j g' → j = i := by
  simp only [← mem_candidates]
  match r.candidates urn, pairwise_candidates r urn with
  | [], _ => simp
  | [(k, g')], _ =>
    simp only [List.cons.injEq, and_true, List.mem_singleton, Prod.mk.injEq]
    constructor
    · rintro ⟨rfl, rfl⟩
      exact ⟨⟨rfl, rfl⟩, fun j _ hj => hj.1⟩
    · rintro ⟨⟨rfl, rfl⟩, -⟩
      exact ⟨rfl, rfl⟩
  | p :: q :: rest, hsorted =>
    -- Two candidates have different positions.
    have hlt := (List.pairwise_cons.1 hsorted).1 q List.mem_cons_self
    refine ⟨fun h => by simp at h, fun ⟨_, honly⟩ => ?_⟩
    have hp := honly p.1 p.2 (by simp)
    have hq := honly q.1 q.2 (by simp)
    omega

/-- Only one registration leads if its prefix is longer than any other one that fits. -/
theorem leads_alone_iff : (r.Leads urn i g ∧ ∀ j g', r.Leads urn j g' → j = i) ↔
    r.registrations[i]? = some g ∧ g.urnPrefix.toList <+: urn.toList ∧
      ∀ j g', j ≠ i → r.registrations[j]? = some g' → g'.urnPrefix.toList <+: urn.toList →
        g'.urnPrefix.utf8ByteSize < g.urnPrefix.utf8ByteSize := by
  constructor
  · rintro ⟨hleads, honly⟩
    refine ⟨hleads.1, hleads.2.1, fun j g' hne hj hfits => ?_⟩
    exact (hleads.lt_or_leads hj hfits).resolve_right fun h => hne (honly j g' h)
  · rintro ⟨hi, hfits, hshorter⟩
    refine ⟨⟨hi, hfits, fun g' hg' hfits' => ?_⟩, fun j g' ⟨hj, hfits', hlongest⟩ => ?_⟩
    · obtain ⟨j, hj⟩ := List.mem_iff_getElem?.1 hg'
      by_cases hji : j = i
      · rw [hji, hi, Option.some.injEq] at hj
        exact hj ▸ Nat.le_refl _
      · exact Nat.le_of_lt (hshorter j g' hji hj hfits')
    · by_contra hne
      have hlt := hshorter j g' hne hj hfits'
      have hle := hlongest g (List.mem_of_getElem? hi) hfits
      omega

theorem candidates_eq_nil : r.candidates urn = [] ↔
    ∀ g ∈ r.registrations, ¬ g.urnPrefix.toList <+: urn.toList := by
  rw [List.eq_nil_iff_forall_not_mem]
  constructor
  · intro hnone g hg hfits
    obtain ⟨j, g', hleads⟩ := exists_leads hg hfits
    exact hnone (j, g') (mem_candidates.2 hleads)
  · rintro hnone ⟨i, g⟩ hmem
    obtain ⟨hi, hfits, -⟩ := mem_candidates.1 hmem
    exact hnone g (List.mem_of_getElem? hi) hfits

theorem one_lt_length_candidates : 1 < (r.candidates urn).length ↔
    ∃ i j g g', i ≠ j ∧ r.Leads urn i g ∧ r.Leads urn j g' := by
  simp only [← mem_candidates]
  match r.candidates urn, pairwise_candidates r urn with
  | [], _ => simp
  | [(k, g)], _ =>
    simp only [List.length_singleton, Nat.lt_irrefl, List.mem_singleton, Prod.mk.injEq, false_iff]
    rintro ⟨i, j, _, _, hne, ⟨rfl, -⟩, rfl, -⟩
    exact hne rfl
  | (i, g) :: (j, g') :: rest, hsorted =>
    have hlt : i < j := (List.pairwise_cons.1 hsorted).1 (j, g') List.mem_cons_self
    refine ⟨fun _ => ⟨i, j, g, g', by omega, by simp, by simp⟩, fun _ => ?_⟩
    simp only [List.length_cons]
    omega

/-! ### Routes -/

theorem route_eq_ok : r.route urn = .ok i ↔ ∃ g, r.candidates urn = [(i, g)] := by
  rw [route_eq]
  match r.candidates urn with
  | [] => simp
  | [(j, g)] => simp
  | p :: q :: rest => simp

theorem route_eq_noRoute {u : String} :
    r.route urn = .error (.noRoute u) ↔ u = urn ∧ r.candidates urn = [] := by
  rw [route_eq]
  match r.candidates urn with
  | [] => simp [eq_comm]
  | [p] => simp
  | p :: q :: rest => simp

/-- The names of an ambiguous route are those of the registrations that lead, in the order of their
    positions. -/
theorem names_candidates (r : Router) (urn : String) :
    ∃ positions : List Nat, positions.Pairwise (· < ·) ∧
      (∀ i, i ∈ positions ↔ ∃ g, r.Leads urn i g) ∧
      (r.best urn).map Registration.name =
        positions.filterMap fun i => r.registrations[i]?.map Registration.name := by
  refine ⟨(r.candidates urn).map Prod.fst, List.pairwise_map.2 (pairwise_candidates r urn), ?_, ?_⟩
  · intro i
    rw [List.mem_map]
    constructor
    · rintro ⟨⟨j, g⟩, hmem, rfl⟩
      exact ⟨g, mem_candidates.1 hmem⟩
    · rintro ⟨g, hleads⟩
      exact ⟨(i, g), mem_candidates.2 hleads, rfl⟩
  · -- At the position of a candidate, the candidate itself is registered.
    have hname : ∀ p ∈ r.candidates urn,
        r.registrations[p.1]?.map Registration.name = some p.2.name := by
      rintro ⟨i, g⟩ hmem
      obtain ⟨hi, -, -⟩ := mem_candidates.1 hmem
      rw [hi]
      rfl
    rw [← map_snd_candidates, List.map_map, List.filterMap_map, ← List.filterMap_eq_map]
    exact List.filterMap_congr fun p hp => (hname p hp).symm

/-! ### The order of registration -/

/-- Two routers answer an urn alike: by the same registration, or with errors of one kind. -/
inductive SameRoute (r r' : Router) (urn : String) : Prop
  | ok {i j : Nat} {g : Registration} : r.route urn = .ok i → r'.route urn = .ok j →
      r.registrations[i]? = some g → r'.registrations[j]? = some g → SameRoute r r' urn
  | noRoute : r.route urn = .error (.noRoute urn) → r'.route urn = .error (.noRoute urn) →
      SameRoute r r' urn
  | ambiguous {prefixText : String} {names names' : List String} :
      r.route urn = .error (.ambiguousRoute urn prefixText names) →
      r'.route urn = .error (.ambiguousRoute urn prefixText names') → names.Perm names' →
      SameRoute r r' urn

theorem best_perm (h : r.registrations.Perm r'.registrations) (urn : String) :
    (r.best urn).Perm (r'.best urn) := by
  unfold best
  refine ((h.filter _).filter _).trans (List.Perm.of_eq (List.filter_congr fun g _ => ?_))
  simp only [h.mem_iff]

theorem exists_candidates_of_best (h : r.best urn = [g]) :
    ∃ i, r.candidates urn = [(i, g)] ∧ r.registrations[i]? = some g := by
  rw [← map_snd_candidates, List.map_eq_singleton_iff] at h
  obtain ⟨⟨i, g⟩, hc, rfl⟩ := h
  exact ⟨i, hc, (candidates_eq_singleton.1 hc).1.1⟩

/-- **Order of registration.** The order in which backends are registered makes no difference to
    which one is chosen. -/
theorem sameRoute_of_perm (h : r.registrations.Perm r'.registrations) (urn : String) :
    SameRoute r r' urn := by
  have hperm := best_perm h urn
  match hb : r.best urn with
  | [] =>
    rw [hb, List.nil_perm] at hperm
    rw [← map_snd_candidates, List.map_eq_nil_iff] at hb hperm
    exact .noRoute (route_eq_noRoute.2 ⟨rfl, hb⟩) (route_eq_noRoute.2 ⟨rfl, hperm⟩)
  | [g] =>
    rw [hb, List.singleton_perm] at hperm
    obtain ⟨i, hc, hi⟩ := exists_candidates_of_best hb
    obtain ⟨j, hc', hj⟩ := exists_candidates_of_best hperm.symm
    exact .ok (route_eq_ok.2 ⟨g, hc⟩) (route_eq_ok.2 ⟨g, hc'⟩) hi hj
  | g :: g' :: rest =>
    have hg : g ∈ r.best urn := by simp [hb]
    have hseveral : 1 < (r.best urn).length := by simp [hb]
    refine .ambiguous
      (route_ambiguous_iff.2 ⟨rfl, hseveral, fun _ h => urnPrefix_eq_of_best h hg, rfl⟩)
      (route_ambiguous_iff.2 ⟨rfl, hperm.length_eq ▸ hseveral, fun g'' hg'' => ?_, rfl⟩)
      (hperm.map _)
    exact urnPrefix_eq_of_best (hperm.mem_iff.2 hg'') hg

/-! ### The backends -/

/-- Backends by their positions. -/
abbrev Answers := Nat → ActionCall → Except ActionError ActionResult

/-- The same names and prefixes with other backends behind them. -/
def withAnswers (r : Router) (answers : Answers) : Router :=
  ⟨r.registrations.mapIdx fun i g => { g with answer := answers i }⟩

theorem candidates_withAnswers (r : Router) (answers : Answers) (urn : String) :
    (r.withAnswers answers).candidates urn =
      (r.candidates urn).map fun p => (p.1, { p.2 with answer := answers p.1 }) := by
  have hzip : (r.withAnswers answers).registrations.zipIdx =
      r.registrations.zipIdx.map fun p => ({ p.1 with answer := answers p.2 }, p.2) := by
    refine List.ext_getElem? fun i => ?_
    simp [withAnswers, Function.comp_def]
  have hfitting : (r.withAnswers answers).fitting urn =
      (r.fitting urn).map fun p => (p.1, { p.2 with answer := answers p.1 }) := by
    unfold fitting
    rw [hzip, List.filterMap_map, List.map_filterMap]
    refine List.filterMap_congr fun p _ => ?_
    show (if p.1.fits urn then _ else none) = Option.map _ (if p.1.fits urn then _ else none)
    split <;> rfl
  unfold candidates
  rw [hfitting, List.filter_map, longest, List.foldl_map]
  rfl

/-- **Backends.** Which backend is chosen does not depend on what any backend answers. -/
theorem route_withAnswers (r : Router) (answers : Answers) (urn : String) :
    (r.withAnswers answers).route urn = r.route urn := by
  rw [route_eq, route_eq, candidates_withAnswers]
  match r.candidates urn with
  | [] => rfl
  | [p] => rfl
  | p :: q :: rest => simp

theorem execute_ok {call : ActionCall} (h : r.route call.urn = .ok i)
    (hi : r.registrations[i]? = some g) : r.execute call = g.answer call := by
  simp [execute, h, hi, bind, Except.bind]

theorem execute_error {call : ActionCall} {e : ActionError} (h : r.route call.urn = .error e) :
    r.execute call = .error e := by
  simp [execute, h, bind, Except.bind]

/-- A call is answered by the backend at the position that its urn is routed to. -/
theorem execute_withAnswers (r : Router) (answers : Answers) (call : ActionCall) :
    (r.withAnswers answers).execute call = r.route call.urn >>= fun i => answers i call := by
  cases h : r.route call.urn with
  | error e => exact execute_error ((route_withAnswers r answers call.urn).trans h)
  | ok i =>
    obtain ⟨g, hc⟩ := route_eq_ok.1 h
    have hi : (r.withAnswers answers).registrations[i]? = some { g with answer := answers i } := by
      simp [withAnswers, (candidates_eq_singleton.1 hc).1.1]
    exact execute_ok ((route_withAnswers r answers call.urn).trans h) hi

/-- What a router does with the calls of an urn. -/
structure RoutesByPrefix (r : Router) : Prop where
  /-- A registration is chosen if its prefix is longer than any other one that fits. -/
  ok_iff : ∀ urn i, r.route urn = .ok i ↔ ∃ g, r.registrations[i]? = some g ∧
    g.urnPrefix.toList <+: urn.toList ∧ ∀ j g', j ≠ i → r.registrations[j]? = some g' →
      g'.urnPrefix.toList <+: urn.toList →
        g'.urnPrefix.utf8ByteSize < g.urnPrefix.utf8ByteSize
  noRoute_iff : ∀ urn u, r.route urn = .error (.noRoute u) ↔
    u = urn ∧ ∀ g ∈ r.registrations, ¬ g.urnPrefix.toList <+: urn.toList
  /-- A route is ambiguous if two registrations fit while no longer prefix does. -/
  ambiguous_iff : ∀ urn,
    (∃ u prefixText names, r.route urn = .error (.ambiguousRoute u prefixText names)) ↔
      ∃ i j g g', i ≠ j ∧ r.Leads urn i g ∧ r.Leads urn j g'
  /-- All of these have the prefix that is reported, and are named in the order of registration. -/
  reported : ∀ urn u prefixText names, r.route urn = .error (.ambiguousRoute u prefixText names) →
    u = urn ∧ (∀ i g, r.Leads urn i g → g.urnPrefix = prefixText) ∧
      ∃ positions : List Nat, positions.Pairwise (· < ·) ∧
        (∀ i, i ∈ positions ↔ ∃ g, r.Leads urn i g) ∧
        names = positions.filterMap fun i => r.registrations[i]?.map Registration.name
  permuted : ∀ r' urn, r.registrations.Perm r'.registrations → SameRoute r r' urn
  /-- The chosen backend answers, -/
  answers : ∀ call i g, r.route call.urn = .ok i → r.registrations[i]? = some g →
    r.execute call = g.answer call
  /-- and no other one has a part in it, nor has any in an error. -/
  asksNoOther : ∀ answers call,
    (r.withAnswers answers).execute call = r.route call.urn >>= fun i => answers i call

/-- **Routing.** A call is answered by the backend with the longest prefix of its urn, if there is
    only one. -/
theorem routes_by_prefix (r : Router) : RoutesByPrefix r where
  ok_iff urn i := by
    rw [route_eq_ok]
    exact exists_congr fun g => candidates_eq_singleton.trans leads_alone_iff
  noRoute_iff urn u := by rw [route_eq_noRoute, candidates_eq_nil]
  ambiguous_iff urn := by
    rw [← one_lt_length_candidates, ← List.length_map Prod.snd, map_snd_candidates]
    constructor
    · rintro ⟨u, prefixText, names, h⟩
      exact (route_ambiguous_iff.1 h).2.1
    · intro hseveral
      obtain ⟨g, hg⟩ := List.exists_mem_of_length_pos (Nat.zero_lt_of_lt hseveral)
      exact ⟨urn, g.urnPrefix, _, route_ambiguous_iff.2
        ⟨rfl, hseveral, fun _ h => urnPrefix_eq_of_best h hg, rfl⟩⟩
  reported urn u prefixText names h := by
    obtain ⟨rfl, -, hshared, rfl⟩ := route_ambiguous_iff.1 h
    exact ⟨rfl, fun i g hleads => hshared g (mem_best_iff_leads.2 ⟨i, hleads⟩),
      names_candidates r u⟩
  permuted r' urn h := sameRoute_of_perm h urn
  answers _ _ _ h hi := execute_ok h hi
  asksNoOther := execute_withAnswers r

end Router

end Runbook
