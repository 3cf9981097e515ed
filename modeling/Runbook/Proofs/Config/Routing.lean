import Mathlib.Data.List.Nodup
import Runbook.Backend.Setup
import Runbook.Host.Memory
import Runbook.Proofs.Backend.Router

namespace Runbook

/-!
# Configurations — what their routers find ambiguous

A configuration without issues has no prefix twice, but the file for all urns is registered under
the empty prefix, which a configured backend may have as well.  This file shows that this is the
only way in which a route becomes ambiguous.

* `Config.nodup_of_issues` — without issues, no two backends share a prefix;
* `Config.registered_router` — a router has the backends of the configuration and the file for all
  urns;
* `Config.routed_router` — when its routes are ambiguous;
* `Config.ambiguous_unlimited` — a configuration without issues and an ambiguous route.
-/

/-! ### Prefixes of a configuration -/

namespace Config

theorem prefixIssues_eq_nil_iff {earlier : List (String × Source)} {name : String} {s : Source} :
    prefixIssues earlier name s = [] ↔ ∀ e ∈ earlier, e.2.urnPrefix ≠ s.urnPrefix := by
  rw [prefixIssues]
  cases h : earlier.find? fun e => e.2.urnPrefix == s.urnPrefix with
  | none => simpa using h
  | some e =>
    have he := List.find?_some h
    have hmem := List.mem_of_find?_eq_some h
    simp only [List.cons_ne_nil, false_iff]
    exact fun hall => hall e hmem (by simpa using he)

/-- Sources without issues have different prefixes, and none that an earlier one has. -/
theorem nodup_of_sourceIssues (entries : List (String × Source)) : ∀ earlier,
    sourceIssues earlier entries = [] → (entries.map fun e => e.2.urnPrefix).Nodup ∧
      ∀ e ∈ entries, ∀ e' ∈ earlier, e'.2.urnPrefix ≠ e.2.urnPrefix := by
  induction entries with
  | nil => exact fun earlier _ => ⟨List.nodup_nil, by simp⟩
  | cons e rest ih =>
    intro earlier h
    obtain ⟨name, s⟩ := e
    rw [sourceIssues, List.append_eq_nil_iff, List.append_eq_nil_iff] at h
    obtain ⟨⟨-, hpre⟩, hrest⟩ := h
    -- For the rest, the first source is an earlier one.
    obtain ⟨hnodup, hnew⟩ := ih _ hrest
    refine ⟨?_, ?_⟩
    · rw [List.map_cons, List.nodup_cons]
      refine ⟨fun hmem => ?_, hnodup⟩
      obtain ⟨e, he, heq⟩ := List.mem_map.1 hmem
      exact hnew e he (name, s) List.mem_cons_self heq.symm
    · intro e he
      rcases List.mem_cons.1 he with rfl | he
      · exact prefixIssues_eq_nil_iff.1 hpre
      · exact fun e' he' => hnew e he e' (List.mem_cons_of_mem _ he')

theorem nodup_of_issues {c : Config} (h : c.issues = []) :
    (c.backends.entries.map fun e => e.2.urnPrefix).Nodup := by
  rw [issues, List.append_eq_nil_iff] at h
  exact (nodup_of_sourceIssues _ [] h.2).1

end Config

/-! ### What is registered -/

/-- What holds of every step of a pure computation holds of all that it puts out. -/
theorem forall₂_mapM {σ α β : Type} {f : α → StateM σ β} {p : α → β → Prop}
    (h : ∀ a s, p a ((f a).run s).1) :
    ∀ (l : List α) (s : σ), List.Forall₂ p l ((l.mapM f).run s).1 := by
  intro l
  induction l with
  | nil => exact fun s => .nil
  | cons a rest ih =>
    intro s
    rw [List.mapM_cons]
    exact .cons (h a s) (ih _)

namespace ScenarioFile

/-- A router has all backends that were loaded, each of which could be. -/
theorem router_ok {loaded : List (Except Issue Registration)} {r : Router}
    (h : router loaded = .ok r) : loaded = r.registrations.map .ok := by
  rw [router] at h
  split at h
  case isFalse => cases h
  case isTrue hissues =>
    rw [List.isEmpty_iff, List.filterMap_eq_nil_iff] at hissues
    cases h
    induction loaded with
    | nil => rfl
    | cons l rest ih =>
      cases l with
      | error i => cases hissues (.error i) List.mem_cons_self
      | ok g => exact congrArg (.ok g :: ·) (ih fun l hl => hissues l (List.mem_cons_of_mem _ hl))

/-- The backend that a file is for has the name and the prefix that the file goes by. -/
theorem registration_ok {f : ScenarioFile} {read : Except FileError String} {g : Registration}
    (h : f.registration read = .ok g) : g.name = f.name ∧ g.urnPrefix = f.urnPrefix := by
  rw [registration.eq_def] at h
  split at h
  · cases h
  · split at h
    · cases h
      exact ⟨rfl, rfl⟩
    · cases h

/-- The backends that files are for, as the names and prefixes of the files. -/
theorem map_registrations {files : List ScenarioFile} {gs : List Registration}
    (h : List.Forall₂ (fun f g => ∃ read, .ok g = f.registration read) files gs) :
    gs.map (fun g => (g.name, g.urnPrefix)) = files.map fun f => (f.name, f.urnPrefix) := by
  induction h with
  | nil => rfl
  | cons hread _ ih =>
    obtain ⟨read, hread⟩ := hread
    obtain ⟨hname, hpre⟩ := registration_ok hread.symm
    rw [List.map_cons, List.map_cons, ih, hname, hpre]

end ScenarioFile

namespace Config

/-- The names and prefixes of the backends of a configuration and of the file for all urns. -/
def routes (c : Config) (catchAll : Option Path) : List (String × String) :=
  c.backends.entries.map (fun e => (e.1, e.2.urnPrefix)) ++
    catchAll.toList.map fun _ => (catchAllName, "")

theorem map_sources (c : Config) (catchAll : Option Path) :
    (c.sources catchAll).map (fun f => (f.name, f.urnPrefix)) = c.routes catchAll := by
  simp [sources, routes, Function.comp_def]

/-- **What is registered.** A router has the backends of the configuration, and after them the one
    for all urns. -/
theorem registered_router {c : Config} {catchAll : Option Path} {memory : Memory} {r : Router}
    (h : ((c.router catchAll : StateM Memory _).run memory).1 = .ok r) :
    r.registrations.map (fun g => (g.name, g.urnPrefix)) = c.routes catchAll := by
  have hloaded : (((c.sources catchAll).mapM fun f => do
      return f.registration (← Host.readText f.path) : StateM Memory _).run memory).1 =
        r.registrations.map .ok := ScenarioFile.router_ok h
  have hall := forall₂_mapM (p := fun f l => ∃ read, l = ScenarioFile.registration f read)
    (f := fun f => do return f.registration (← Host.readText f.path))
    (fun f s => ⟨_, rfl⟩) (c.sources catchAll) memory
  rw [hloaded, List.forall₂_map_right_iff] at hall
  rw [← map_sources]
  exact ScenarioFile.map_registrations hall

/-! ### Ambiguous routes -/

/-- Where a router for a configuration finds an urn ambiguous. -/
structure Routed (c : Config) (catchAll : Option Path) (r : Router) : Prop where
  /-- The router has the backends of the configuration, then the one for all urns. -/
  registered : r.registrations.map (fun g => (g.name, g.urnPrefix)) = c.routes catchAll
  /-- An urn is ambiguous if there is a file for all urns, a configured backend has the empty prefix
      as well, and no other prefix fits. -/
  ambiguous : ∀ urn u prefixText names,
    r.route urn = .error (.ambiguousRoute u prefixText names) ↔
      catchAll.isSome ∧ u = urn ∧ prefixText = "" ∧
        ∃ e ∈ c.backends.entries, e.2.urnPrefix = "" ∧ names = [e.1, catchAllName] ∧
          ∀ e' ∈ c.backends.entries, e'.2.urnPrefix.toList <+: urn.toList → e'.2.urnPrefix = ""
  /-- Without a file for all urns, or without an empty prefix in the configuration, no urn is. -/
  clear : (catchAll = none ∨ ∀ e ∈ c.backends.entries, e.2.urnPrefix ≠ "") →
    ∀ urn u prefixText names, r.route urn ≠ .error (.ambiguousRoute u prefixText names)

section

variable {c : Config} {catchAll : Option Path} {r : Router} {urn : String}

/-- Of different prefixes and the empty one, only the empty one occurs twice. -/
theorem eq_of_count_routes (hd : (c.backends.entries.map fun e => e.2.urnPrefix).Nodup)
    {prefixText : String} (h : 1 < ((c.routes catchAll).map Prod.snd).count prefixText) :
    catchAll.isSome ∧ prefixText = "" ∧ ∃ e ∈ c.backends.entries, e.2.urnPrefix = "" := by
  have hsplit : (c.routes catchAll).map Prod.snd =
      (c.backends.entries.map fun e => e.2.urnPrefix) ++ catchAll.toList.map fun _ => "" := by
    simp [routes, Function.comp_def]
  rw [hsplit, List.count_append] at h
  have hconfigured := List.nodup_iff_count_le_one.1 hd prefixText
  -- The configuration has it once at most, so the file for all urns has it too.
  cases catchAll with
  | none =>
    rw [Option.toList_none, List.map_nil, List.count_nil] at h
    omega
  | some path =>
    rw [Option.toList_some, List.map_singleton] at h
    have hall : [""].count prefixText ≤ 1 := List.count_le_length
    have hempty : prefixText = "" := List.mem_singleton.1 (List.count_pos_iff.1 (by omega))
    have hmem : prefixText ∈ c.backends.entries.map fun e => e.2.urnPrefix :=
      List.count_pos_iff.1 (by omega)
    obtain ⟨e, he, heq⟩ := List.mem_map.1 hmem
    exact ⟨rfl, hempty, e, he, heq.trans hempty⟩

/-- The routes with the empty prefix are the one of a configured backend and the one for all
    urns. -/
theorem filter_routes (hd : (c.backends.entries.map fun e => e.2.urnPrefix).Nodup) {path : Path}
    {e : String × Source} (he : e ∈ c.backends.entries) (hempty : e.2.urnPrefix = "") :
    (c.routes (some path)).filter (fun p => p.2 == "") = [(e.1, ""), (catchAllName, "")] := by
  obtain ⟨before, after, hsplit⟩ := List.append_of_mem he
  rw [hsplit, List.map_append, List.map_cons, List.nodup_append, List.nodup_cons, hempty] at hd
  obtain ⟨-, ⟨hafter, -⟩, hbefore⟩ := hd
  have hnone : ∀ l : List (String × Source), "" ∉ l.map (fun e => e.2.urnPrefix) →
      (l.map fun e => (e.1, e.2.urnPrefix)).filter (fun p => p.2 == "") = [] := by
    intro l hl
    refine List.filter_eq_nil_iff.2 fun p hp hpe => hl ?_
    obtain ⟨e, he, rfl⟩ := List.mem_map.1 hp
    exact beq_iff_eq.1 hpe ▸ List.mem_map_of_mem he
  have hbefore := hnone before fun hmem => hbefore _ hmem _ List.mem_cons_self rfl
  simp [routes, hsplit, hbefore, hnone after hafter, hempty]

/-- Where only the empty prefix fits, the best registrations are the ones that have it. -/
theorem names_best (hregistered : r.registrations.map (fun g => (g.name, g.urnPrefix)) =
    c.routes catchAll) (h : ∀ g ∈ r.registrations, g.fits urn = true → g.urnPrefix = "") :
    (r.best urn).map Registration.name =
      ((c.routes catchAll).filter (fun p => p.2 == "")).map Prod.fst := by
  rw [Router.best_eq_of_empty h, ← hregistered, List.filter_map, List.map_map]
  rfl

/-- Nothing but the empty prefix fits the registrations if nothing else fits those of the
    configuration. -/
theorem forall_registrations (hregistered :
    r.registrations.map (fun g => (g.name, g.urnPrefix)) = c.routes catchAll) :
    (∀ g ∈ r.registrations, g.fits urn = true → g.urnPrefix = "") ↔
      ∀ e ∈ c.backends.entries, e.2.urnPrefix.toList <+: urn.toList → e.2.urnPrefix = "" := by
  constructor
  · intro h e he hfits
    have hmem : (e.1, e.2.urnPrefix) ∈ c.routes catchAll :=
      List.mem_append_left _ (List.mem_map_of_mem he)
    rw [← hregistered] at hmem
    obtain ⟨g, hg, heq⟩ := List.mem_map.1 hmem
    obtain ⟨-, hpre⟩ := Prod.mk.inj heq
    exact hpre ▸ h g hg (Registration.fits_iff.2 (hpre.symm ▸ hfits))
  · intro h g hg hfits
    have hmem := List.mem_map_of_mem (f := fun g : Registration => (g.name, g.urnPrefix)) hg
    rw [hregistered, routes] at hmem
    rcases List.mem_append.1 hmem with hmem | hmem
    · obtain ⟨e, he, heq⟩ := List.mem_map.1 hmem
      obtain ⟨-, hpre⟩ := Prod.mk.inj heq
      exact hpre ▸ h e he (hpre.symm ▸ Registration.fits_iff.1 hfits)
    · obtain ⟨path, -, heq⟩ := List.mem_map.1 hmem
      exact (Prod.mk.inj heq).2.symm

/-- An urn that is ambiguous fits nothing but the empty prefix, which is registered twice. -/
theorem ambiguous_iff (hd : (c.backends.entries.map fun e => e.2.urnPrefix).Nodup)
    (hregistered : r.registrations.map (fun g => (g.name, g.urnPrefix)) = c.routes catchAll)
    {u prefixText : String} {names : List String} :
    r.route urn = .error (.ambiguousRoute u prefixText names) ↔
      catchAll.isSome ∧ u = urn ∧ prefixText = "" ∧
        ∃ e ∈ c.backends.entries, e.2.urnPrefix = "" ∧ names = [e.1, catchAllName] ∧
          ∀ e' ∈ c.backends.entries, e'.2.urnPrefix.toList <+: urn.toList →
            e'.2.urnPrefix = "" := by
  rw [Router.route_ambiguous_iff, ← forall_registrations hregistered]
  constructor
  · rintro ⟨rfl, hseveral, hshared, rfl⟩
    have hprefixes : r.registrations.map Registration.urnPrefix =
        (c.routes catchAll).map Prod.snd := by
      rw [← hregistered, List.map_map]
      rfl
    -- A prefix is shared only if it is registered twice.
    have htwice : 1 < ((c.routes catchAll).map Prod.snd).count prefixText :=
      hprefixes ▸ Nat.lt_of_lt_of_le hseveral (Router.length_best_le_count hshared)
    obtain ⟨hsome, rfl, e, he, hempty⟩ := eq_of_count_routes hd htwice
    obtain ⟨path, rfl⟩ := Option.isSome_iff_exists.1 hsome
    obtain ⟨g, hg⟩ := List.exists_mem_of_length_pos (Nat.zero_lt_of_lt hseveral)
    have hfits := Router.eq_empty_of_best hg (hshared g hg)
    refine ⟨hsome, rfl, rfl, e, he, hempty, ?_, hfits⟩
    rw [names_best hregistered hfits, filter_routes hd he hempty]
    rfl
  · rintro ⟨hsome, rfl, rfl, e, he, hempty, rfl, hfits⟩
    obtain ⟨path, rfl⟩ := Option.isSome_iff_exists.1 hsome
    -- The configured backend is registered before the catch-all.
    have hnames := names_best hregistered hfits
    rw [filter_routes hd he hempty] at hnames
    refine ⟨rfl, ?_, ?_, hnames.symm⟩
    · rw [← List.length_map Registration.name, hnames]
      exact Nat.one_lt_two
    · intro g hg
      obtain ⟨hmem, hg, -⟩ := Router.mem_best.1 hg
      exact hfits g hmem hg

end

/-- **Routing.** In a configuration without issues, the only prefix that is registered twice is the
    empty one of the file for all urns, if a configured backend has it as well. -/
theorem routed_router {c : Config} (hc : c.issues = []) {catchAll : Option Path} {memory : Memory}
    {r : Router} (h : ((c.router catchAll : StateM Memory _).run memory).1 = .ok r) :
    c.Routed catchAll r := by
  have hd := nodup_of_issues hc
  have hregistered := registered_router h
  constructor
  case registered => exact hregistered
  case ambiguous => exact fun _ _ _ _ => ambiguous_iff hd hregistered
  case clear =>
    intro hclear urn u prefixText names hroute
    obtain ⟨hsome, -, -, e, he, hempty, -⟩ := (ambiguous_iff hd hregistered).1 hroute
    rcases hclear with hnone | hnonempty
    · rw [hnone] at hsome
      cases hsome
    · exact hnonempty e he hempty

/-- A configuration whose only backend answers for all urns. -/
def unlimited : Config where
  backends := .singleton "local" { urnPrefix := "", scenarios := ⟨"local.json"⟩ }

/-- A working folder with its scenarios and with some for all urns. -/
def unlimitedFiles : Memory where
  files := (FileTree.empty.add ⟨"local.json"⟩ "[]".toUTF8).add ⟨"all.json"⟩ "[]".toUTF8
  environment := ∅

/-- Its router, together with a file for all urns. -/
def unlimitedRouter : Except (List Issue) Router :=
  ((unlimited.router (some ⟨"all.json"⟩) : StateM Memory _).run unlimitedFiles).1

theorem routed_unlimited :
    unlimited.issues = [] ∧ ∃ r, unlimitedRouter = .ok r ∧
      unlimited.Routed (some ⟨"all.json"⟩) r := by
  have hissues : unlimited.issues = [] := by decide +kernel
  have hbuilt : unlimitedRouter.toOption.isSome = true := by decide +kernel
  refine ⟨hissues, ?_⟩
  cases hrouter : unlimitedRouter with
  | error issues =>
    rw [hrouter] at hbuilt
    cases hbuilt
  | ok r => exact ⟨r, rfl, routed_router hissues hrouter⟩

/-- Without any issue, a route is ambiguous. -/
theorem ambiguous_unlimited :
    unlimited.issues = [] ∧ ∃ r, unlimitedRouter = .ok r ∧
      r.route "u" = .error (.ambiguousRoute "u" "" ["local", catchAllName]) := by
  have hroute : unlimitedRouter.toOption.map (fun r => r.route "u") =
      some (.error (.ambiguousRoute "u" "" ["local", catchAllName])) := by decide +kernel
  refine ⟨by decide +kernel, ?_⟩
  cases hrouter : unlimitedRouter with
  | error issues =>
    rw [hrouter] at hroute
    cases hroute
  | ok r =>
    rw [hrouter] at hroute
    exact ⟨r, rfl, Option.some.inj hroute⟩

end Config

end Runbook
