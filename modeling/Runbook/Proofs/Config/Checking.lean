import Mathlib.Data.List.Nodup
import Runbook.Config.Load
import Runbook.Host.Memory
import Runbook.Proofs.Dict

namespace Runbook

/-!
# Configurations — what checking them finds

A configuration is checked rule by rule, its sources in the order of their names.  This file says
what is found without following the check: which rules are broken, and at which fields.

* `Config.Valid`, `Config.Sound` — configurations with which nothing is wrong, and what of it
  remains once the paths of scenarios are resolved;
* `Config.Nearest` — the source that a reused prefix is blamed on;
* `Config.Breaks`, `Config.mem_issues` — the issues of a configuration, each for a rule it breaks;
* `Config.sublist_fields`, `Config.nodup_fields` — no field has more than one issue;
* `Config.exact_issues` — checking is exact, and loading refuses what is not sound.
-/

namespace Config

/-! ### What configurations are checked for -/

/-- A timeout lasts from one second to one week. -/
def Lasts (seconds : Nat) : Prop := 1 ≤ seconds ∧ seconds ≤ 604800

/-- The timeouts of an engine, by the names of their fields. -/
def Engine.timeouts (e : Engine) : List (String × Nat) :=
  [("action_input_timeout_secs", e.actionTimeout),
    ("condition_input_timeout_secs", e.conditionTimeout),
    ("loop_input_timeout_secs", e.loopTimeout)]

/-- The schema, the timeouts and the prefixes of a configuration are as they have to be. -/
structure Sound (c : Config) : Prop where
  schema : c.schema = supportedSchema
  timeouts : ∀ t ∈ c.engine.timeouts, Lasts t.2
  /-- No two sources share a prefix. -/
  prefixes : ∀ name s name' s', c.backends.get? name = some s → c.backends.get? name' = some s' →
    s.urnPrefix = s'.urnPrefix → name = name'

/-- Nothing is wrong with a configuration. -/
structure Valid (c : Config) : Prop extends c.Sound where
  scenarios : ∀ name s, c.backends.get? name = some s → s.scenarios.text ≠ ""

/-- The source `s`, which is called `name`, has the prefix of the earlier source `previous`. -/
def Reuses (c : Config) (name : String) (s : Source) (previous : String) : Prop :=
  previous < name ∧ ∃ t, c.backends.get? previous = some t ∧ t.urnPrefix = s.urnPrefix

/-- Of the earlier sources that have the prefix of a source, `previous` is the nearest. -/
def Nearest (c : Config) (name : String) (s : Source) (previous : String) : Prop :=
  c.Reuses name s previous ∧ ∀ other, c.Reuses name s other → ¬ previous < other

/-- The issues of a configuration, by the rules that it breaks. -/
inductive Breaks (c : Config) : Issue → Prop
  | schema : c.schema ≠ supportedSchema →
      Breaks c (issue (Location.root.key "schema")
        ("unsupported runner config schema `" ++ c.schema ++ "` (expected `" ++ supportedSchema ++
          "`)") "runner.config.schema")
  | timeout {field : String} {seconds : Nat} : (field, seconds) ∈ c.engine.timeouts →
      ¬ Lasts seconds →
      Breaks c (issue ((Location.root.key "engine").key field)
        ("engine." ++ field ++ " must be between 1 and " ++ "604800") "runner.config.timeout")
  | scenarios {name : String} {s : Source} : c.backends.get? name = some s →
      s.scenarios.text = "" →
      Breaks c (issue (((Location.root.key "backends").key name).key "scenarios")
        ("backend `" ++ name ++ "` must point at a scenarios file")
        "runner.config.backend.scenarios")
  | reuse {name previous : String} {s : Source} : c.backends.get? name = some s →
      c.Nearest name s previous →
      Breaks c (issue (((Location.root.key "backends").key name).key "urn_prefix")
        ("backend `" ++ name ++ "` reuses urn_prefix `" ++ s.urnPrefix ++ "` of backend `" ++
          previous ++ "`") "runner.config.backend.prefix_unique")

/-! ### Nearest sources -/

section

variable {c : Config} {name previous : String} {s : Source} {before after : List (String × Source)}

/-- The sources before a source in the listing are the ones with smaller names. -/
theorem mem_before_iff (h : c.backends.entries = before ++ (name, s) :: after)
    {e : String × Source} : e ∈ before ↔ c.backends.get? e.1 = some e.2 ∧ e.1 < name := by
  have hsorted := c.backends.sorted
  rw [h, List.pairwise_append, List.pairwise_cons] at hsorted
  obtain ⟨-, ⟨hafter, -⟩, hbefore⟩ := hsorted
  rw [← Dict.mem_entries, h]
  constructor
  · exact fun he => ⟨List.mem_append_left _ he, hbefore e he _ List.mem_cons_self⟩
  · rintro ⟨he, hlt⟩
    rcases List.mem_append.1 he with he | he
    · exact he
    · rcases List.mem_cons.1 he with heq | he
      · rw [(Prod.mk.inj heq).1] at hlt
        exact absurd hlt Std.lt_irrefl
      · exact absurd (Std.lt_trans hlt (hafter e he)) Std.lt_irrefl

/-- Looking through the earlier sources from the nearest on finds the nearest that has the
    prefix. -/
theorem nearest_of_find? (h : c.backends.entries = before ++ (name, s) :: after)
    {e : String × Source}
    (he : before.reverse.find? (fun e => e.2.urnPrefix == s.urnPrefix) = some e) :
    c.Nearest name s e.1 := by
  obtain ⟨heq, nearer, further, hsplit, hnearer⟩ := List.find?_eq_some_iff_append.1 he
  rw [List.reverse_eq_iff, List.reverse_append, List.reverse_cons, List.append_assoc] at hsplit
  have hmem : ∀ e', e' ∈ before ↔ e' ∈ further ∨ e' = e ∨ e' ∈ nearer := by
    intro e'
    rw [hsplit]
    simp
  obtain ⟨hget, hlt⟩ := (mem_before_iff h).1 ((hmem e).2 (.inr (.inl rfl)))
  refine ⟨⟨hlt, e.2, hget, beq_iff_eq.1 heq⟩, ?_⟩
  rintro other ⟨hother, t, ht, hsame⟩ hbetween
  -- What lies between the two sources in the listing does not have the prefix.
  rcases (hmem (other, t)).1 ((mem_before_iff h).2 ⟨ht, hother⟩) with hfar | rfl | hnear
  · have hsorted := c.backends.sorted
    rw [h, hsplit, List.append_assoc, List.pairwise_append] at hsorted
    have hbelow := hsorted.2.2 (other, t) (List.mem_reverse.2 hfar) e (by simp)
    exact Std.lt_irrefl (Std.lt_trans hbelow hbetween)
  · exact Std.lt_irrefl hbetween
  · have hno := hnearer (other, t) hnear
    simp [hsame] at hno

/-- A source that has the prefix of an earlier one has a nearest one. -/
theorem exists_find? (h : c.backends.entries = before ++ (name, s) :: after) {other : String}
    (hother : c.Reuses name s other) :
    ∃ e, before.reverse.find? (fun e => e.2.urnPrefix == s.urnPrefix) = some e := by
  obtain ⟨hlt, t, ht, hsame⟩ := hother
  rw [← Option.isSome_iff_exists, List.find?_isSome]
  exact ⟨(other, t), List.mem_reverse.2 ((mem_before_iff h).2 ⟨ht, hlt⟩), beq_iff_eq.2 hsame⟩

/-- At most one source is the nearest one. -/
theorem Nearest.unique {p p' : String} (h : c.Nearest name s p) (h' : c.Nearest name s p') :
    p = p' :=
  Dict.eq_of_not_lt (h.2 p' h'.1) (h'.2 p h.1)

/-- A source splits the entries into the earlier and the later ones. -/
theorem exists_split (h : c.backends.get? name = some s) :
    ∃ before after, c.backends.entries = before ++ (name, s) :: after :=
  List.append_of_mem (Dict.mem_entries.2 h)

/-- If some earlier source has the prefix, one of them is the nearest. -/
theorem exists_nearest (h : c.backends.get? name = some s) {other : String}
    (hother : c.Reuses name s other) : ∃ previous, c.Nearest name s previous := by
  obtain ⟨before, after, hsplit⟩ := exists_split h
  obtain ⟨e, he⟩ := exists_find? hsplit hother
  exact ⟨e.1, nearest_of_find? hsplit he⟩

/-- `prefixIssues` of a source after the entries `before`: `Nearest` is what `List.find?` finds in
    them, from the last one back. -/
theorem mem_prefixIssues (h : c.backends.entries = before ++ (name, s) :: after) {i : Issue} :
    i ∈ prefixIssues before.reverse name s ↔ ∃ previous, c.Nearest name s previous ∧
      i = issue (((Location.root.key "backends").key name).key "urn_prefix")
        ("backend `" ++ name ++ "` reuses urn_prefix `" ++ s.urnPrefix ++ "` of backend `" ++
          previous ++ "`") "runner.config.backend.prefix_unique" := by
  rw [prefixIssues]
  cases hfind : before.reverse.find? fun e => e.2.urnPrefix == s.urnPrefix with
  | none =>
    simp only [List.not_mem_nil, false_iff]
    rintro ⟨previous, hnearest, -⟩
    obtain ⟨e, he⟩ := exists_find? h hnearest.1
    rw [hfind] at he
    cases he
  | some e =>
    have hnearest := nearest_of_find? h hfind
    rw [List.mem_singleton]
    constructor
    · rintro rfl
      exact ⟨e.1, hnearest, rfl⟩
    · rintro ⟨previous, hprevious, rfl⟩
      rw [hprevious.unique hnearest]
      rfl

end

/-! ### The issues -/

/-- `schemaIssues` has an issue if the schema is another one. -/
theorem mem_schemaIssues {c : Config} {i : Issue} :
    i ∈ schemaIssues c.schema ↔ c.schema ≠ supportedSchema ∧
      i = issue (Location.root.key "schema")
        ("unsupported runner config schema `" ++ c.schema ++ "` (expected `" ++ supportedSchema ++
          "`)") "runner.config.schema" := by
  rw [schemaIssues, List.mem_ite_nil_left, List.mem_singleton]
  rfl

/-- `timeoutIssues` has an issue if the timeout does not last as it should. -/
theorem mem_timeoutIssues {field : String} {seconds : Nat} {i : Issue} :
    i ∈ timeoutIssues field seconds ↔ ¬ Lasts seconds ∧
      i = issue ((Location.root.key "engine").key field)
        ("engine." ++ field ++ " must be between 1 and " ++ "604800") "runner.config.timeout" := by
  have hlongest : toString longestTimeout = "604800" := by decide
  rw [timeoutIssues, List.mem_ite_nil_left, List.mem_singleton, hlongest]
  rfl

/-- `engineIssues` judges each of the `Engine.timeouts`. -/
theorem mem_engineIssues {e : Engine} {i : Issue} :
    i ∈ engineIssues e ↔ ∃ t ∈ e.timeouts, i ∈ timeoutIssues t.1 t.2 := by
  rw [engineIssues, List.mem_append, List.mem_append, Engine.timeouts, or_assoc]
  simp [actionField, conditionField, loopField]

/-- `scenariosIssues` has an issue if no file is named. -/
theorem mem_scenariosIssues {name : String} {s : Source} {i : Issue} :
    i ∈ scenariosIssues name s ↔ s.scenarios.text = "" ∧
      i = issue (((Location.root.key "backends").key name).key "scenarios")
        ("backend `" ++ name ++ "` must point at a scenarios file")
        "runner.config.backend.scenarios" := by
  rw [scenariosIssues, List.mem_ite_nil_right, List.mem_singleton]
  rfl

/-- The issues of sources are those of each one, which knows the sources before it. -/
theorem mem_sourceIssues {entries : List (String × Source)} {i : Issue} : ∀ earlier,
    i ∈ sourceIssues earlier entries ↔ ∃ before name s after,
      entries = before ++ (name, s) :: after ∧
        (i ∈ scenariosIssues name s ∨ i ∈ prefixIssues (before.reverse ++ earlier) name s) := by
  induction entries with
  | nil => simp [sourceIssues]
  | cons e rest ih =>
    intro earlier
    obtain ⟨name, s⟩ := e
    rw [sourceIssues, List.mem_append, List.mem_append, ih]
    constructor
    · rintro (hfirst | ⟨before, name', s', after, rfl, hi⟩)
      · exact ⟨[], name, s, rest, rfl, hfirst⟩
      · refine ⟨(name, s) :: before, name', s', after, rfl, ?_⟩
        rwa [List.reverse_cons, List.append_assoc, List.singleton_append]
    · rintro ⟨before, name', s', after, hsplit, hi⟩
      cases before with
      | nil =>
        obtain ⟨heq, -⟩ := List.cons.inj hsplit
        obtain ⟨rfl, rfl⟩ := Prod.mk.inj heq
        exact .inl hi
      | cons e before =>
        obtain ⟨rfl, rfl⟩ := List.cons.inj hsplit
        rw [List.reverse_cons, List.append_assoc, List.singleton_append] at hi
        exact .inr ⟨before, name', s', after, rfl, hi⟩

/-- **Issues.** A configuration has the issues of the rules that it breaks. -/
theorem mem_issues {c : Config} {i : Issue} : i ∈ c.issues ↔ c.Breaks i := by
  rw [issues, List.mem_append, List.mem_append, mem_schemaIssues, mem_engineIssues,
    mem_sourceIssues]
  constructor
  · rintro ((⟨hschema, rfl⟩ | ⟨t, ht, hi⟩) | ⟨before, name, s, after, hsplit, hi⟩)
    · exact .schema hschema
    · obtain ⟨hlasts, rfl⟩ := mem_timeoutIssues.1 hi
      exact .timeout ht hlasts
    · have hget : c.backends.get? name = some s := by
        rw [← Dict.mem_entries, hsplit]
        exact List.mem_append_right _ List.mem_cons_self
      rw [List.append_nil] at hi
      rcases hi with hi | hi
      · obtain ⟨hempty, rfl⟩ := mem_scenariosIssues.1 hi
        exact .scenarios hget hempty
      · obtain ⟨previous, hnearest, rfl⟩ := (mem_prefixIssues hsplit).1 hi
        exact .reuse hget hnearest
  · intro h
    cases h with
    | schema hschema => exact .inl (.inl ⟨hschema, rfl⟩)
    | timeout ht hlasts => exact .inl (.inr ⟨_, ht, mem_timeoutIssues.2 ⟨hlasts, rfl⟩⟩)
    | scenarios hget hempty =>
      obtain ⟨before, after, hsplit⟩ := exists_split hget
      exact .inr ⟨before, _, _, after, hsplit, .inl (mem_scenariosIssues.2 ⟨hempty, rfl⟩)⟩
    | reuse hget hnearest =>
      obtain ⟨before, after, hsplit⟩ := exists_split hget
      refine .inr ⟨before, _, _, after, hsplit, .inr ?_⟩
      rw [List.append_nil]
      exact (mem_prefixIssues hsplit).2 ⟨_, hnearest, rfl⟩

/-- **Valid configurations.** They are the ones without issues. -/
theorem issues_eq_nil_iff {c : Config} : c.issues = [] ↔ c.Valid := by
  rw [List.eq_nil_iff_forall_not_mem]
  simp only [mem_issues]
  constructor
  · intro h
    -- Of two sources with the same prefix, the later one would have an issue.
    have hreuse : ∀ name s other, c.backends.get? name = some s → ¬ c.Reuses name s other := by
      intro name s other hget hother
      obtain ⟨previous, hnearest⟩ := exists_nearest hget hother
      exact h _ (.reuse hget hnearest)
    refine ⟨⟨?schema, ?timeouts, ?prefixes⟩, ?scenarios⟩
    case schema => exact Classical.byContradiction fun hne => h _ (.schema hne)
    case timeouts => exact fun t ht => Classical.byContradiction fun hne => h _ (.timeout ht hne)
    case scenarios => exact fun name s hget hempty => h _ (.scenarios hget hempty)
    case prefixes =>
      intro name s name' s' hget hget' heq
      exact Dict.eq_of_not_lt (fun hlt => hreuse name' s' name hget' ⟨hlt, s, hget, heq⟩)
        fun hlt => hreuse name s name' hget ⟨hlt, s', hget', heq.symm⟩
  · intro h i hi
    cases hi with
    | schema hne => exact hne h.schema
    | timeout ht hne => exact hne (h.timeouts _ ht)
    | scenarios hget hempty => exact h.scenarios _ _ hget hempty
    | reuse hget hnearest =>
      obtain ⟨⟨hlt, t, ht, heq⟩, -⟩ := hnearest
      rw [h.prefixes _ _ _ _ ht hget heq] at hlt
      exact Std.lt_irrefl hlt

/-! ### Fields -/

/-- The fields of a source that are checked. -/
def sourceFields (name : String) : List Location :=
  [(sourceLocation name).key scenariosField, (sourceLocation name).key prefixField]

/-- The fields that are checked, in the order of the check. -/
def fields (c : Config) : List Location :=
  [Location.root.key schemaField, (Location.root.key engineField).key actionField,
    (Location.root.key engineField).key conditionField,
    (Location.root.key engineField).key loopField] ++
      c.backends.entries.flatMap fun e => sourceFields e.1

/-- The issues of sources come in the order of their fields, at most one for each field. -/
theorem sublist_sourceFields (entries : List (String × Source)) : ∀ earlier,
    ((sourceIssues earlier entries).map Issue.location).Sublist
      (entries.flatMap fun e => sourceFields e.1) := by
  induction entries with
  | nil => exact fun _ => List.nil_sublist _
  | cons e rest ih =>
    intro earlier
    obtain ⟨name, s⟩ := e
    have hscenarios : ((scenariosIssues name s).map Issue.location).Sublist
        [(sourceLocation name).key scenariosField] := by
      rw [scenariosIssues]
      split
      · exact List.Sublist.refl _
      · exact List.nil_sublist _
    have hprefix : ((prefixIssues earlier name s).map Issue.location).Sublist
        [(sourceLocation name).key prefixField] := by
      rw [prefixIssues]
      split
      · exact List.nil_sublist _
      · exact List.Sublist.refl _
    rw [sourceIssues, List.map_append, List.map_append, List.flatMap_cons]
    exact (hscenarios.append hprefix).append (ih _)

/-- Each field has at most one issue, and the issues come in the order of the fields. -/
theorem sublist_fields (c : Config) : (c.issues.map Issue.location).Sublist c.fields := by
  have hschema : ((schemaIssues c.schema).map Issue.location).Sublist
      [Location.root.key schemaField] := by
    rw [schemaIssues]
    split
    · exact List.nil_sublist _
    · exact List.Sublist.refl _
  have htimeout : ∀ field seconds, ((timeoutIssues field seconds).map Issue.location).Sublist
      [(Location.root.key engineField).key field] := by
    intro field seconds
    rw [timeoutIssues]
    split
    · exact List.nil_sublist _
    · exact List.Sublist.refl _
  rw [issues, engineIssues, List.map_append, List.map_append, List.map_append, List.map_append]
  exact (hschema.append (((htimeout _ _).append (htimeout _ _)).append (htimeout _ _))).append
    (sublist_sourceFields _ _)

/-- The two fields of a source that can be wrong. -/
theorem mem_sourceFields {name : String} {l : Location} : l ∈ sourceFields name ↔
    ∃ field ∈ ["scenarios", "urn_prefix"],
      l.segments = [.key "backends", .key name, .key field] := by
  obtain ⟨segments⟩ := l
  simp [sourceFields, sourceLocation, Location.key, Location.root, scenariosField, prefixField,
    backendsField]

/-- No field of a configuration is listed twice, since the names of sources are distinct. -/
theorem nodup_fields (c : Config) : c.fields.Nodup := by
  rw [fields, List.nodup_append, List.nodup_flatMap]
  refine ⟨by decide, ⟨fun e _ => ?_, ?_⟩, ?_⟩
  · simp [sourceFields, Location.key, scenariosField, prefixField]
  · -- The names of sources increase, so no two are the same.
    refine c.backends.sorted.imp fun {e e'} hlt l hl hl' => ?_
    obtain ⟨field, -, hsegments⟩ := mem_sourceFields.1 hl
    obtain ⟨field', -, hsegments'⟩ := mem_sourceFields.1 hl'
    rw [hsegments] at hsegments'
    simp only [List.cons.injEq, Segment.key.injEq] at hsegments'
    rw [hsegments'.2.1] at hlt
    exact Std.lt_irrefl hlt
  · -- The fields of sources are deeper down than all others.
    rintro l hl l' hl' rfl
    obtain ⟨e, -, hl'⟩ := List.mem_flatMap.1 hl'
    obtain ⟨field, -, hsegments⟩ := mem_sourceFields.1 hl'
    have hlength : l.segments.length ≤ 2 := by
      revert hl
      have hall : ∀ l ∈ [Location.root.key schemaField,
          (Location.root.key engineField).key actionField,
          (Location.root.key engineField).key conditionField,
          (Location.root.key engineField).key loopField], l.segments.length ≤ 2 := by decide
      exact hall l
    rw [hsegments] at hlength
    exact Nat.not_succ_le_self 2 hlength

/-- An issue at the prefix of a source is about a prefix that is reused. -/
theorem nearest_of_location {c : Config} {name : String} {s : Source} {i : Issue}
    (hget : c.backends.get? name = some s) (h : c.Breaks i)
    (hlocation : i.location = ((Location.root.key "backends").key name).key "urn_prefix") :
    ∃ previous, c.Nearest name s previous := by
  cases h with
  | schema | timeout | scenarios =>
    simp [issue, Issue.error, Location.key, Location.root] at hlocation
  | @reuse name' previous t hget' hnearest =>
    obtain rfl : name' = name := by
      simpa [issue, Issue.error, Location.key, Location.root] using hlocation
    rw [hget, Option.some.injEq] at hget'
    exact ⟨previous, hget' ▸ hnearest⟩

/-! ### Loading -/

/-- The conditions on schema, timeouts and prefixes do not speak of the paths of scenarios. -/
theorem Sound.resolve {c : Config} (h : c.Sound) (folder : Path) : (c.resolve folder).Sound where
  schema := h.schema
  timeouts := h.timeouts
  prefixes name s name' s' hget hget' heq := by
    rw [Config.resolve] at hget hget'
    dsimp only at hget hget'
    rw [Dict.get?_map, Option.map_eq_some_iff] at hget hget'
    obtain ⟨t, ht, rfl⟩ := hget
    obtain ⟨t', ht', rfl⟩ := hget'
    exact h.prefixes name t name' t' ht ht' heq

/-- What is read from a text passed the checks, before its paths are resolved. -/
theorem sound_of_read {value? : String → Option String} {path : Path} {text : String} {c : Config}
    (h : read value? path text = .ok c) : c.Sound := by
  rw [read] at h
  cases hexpand : expand value? text with
  | error e => rw [hexpand] at h; cases h
  | ok expanded =>
    cases hdecode : decode path.extension? expanded with
    | error e => rw [hexpand] at h; simp only [bind, Except.bind, hdecode] at h; cases h
    | ok decoded =>
      rw [hexpand] at h
      simp only [bind, Except.bind, hdecode, check] at h
      by_cases hissues : decoded.issues.isEmpty = true
      · rw [if_pos hissues] at h
        have hvalid := issues_eq_nil_iff.1 (List.isEmpty_iff.1 hissues)
        cases hparent : path.parent? with
        | none =>
          rw [hparent] at h
          cases h
          exact hvalid.toSound
        | some folder =>
          rw [hparent] at h
          cases h
          exact hvalid.toSound.resolve folder
      · rw [if_neg hissues] at h
        cases h

/-- What is loaded was read from a text, with some values for the placeholders in it. -/
theorem exists_read {path : Path} {memory : Memory} {c : Config}
    (h : ((load path : StateM Memory _).run memory).1 = .ok c) :
    ∃ value? text, read value? path text = .ok c := by
  unfold load at h
  rw [StateT.run_bind] at h
  generalize (Host.readText path : StateM Memory _).run memory = p at h
  obtain ⟨answer, after⟩ := p
  cases answer with
  | error e => exact nomatch (h : Except.error (LoadError.unreadable path e) = .ok c)
  | ok text => exact ⟨_, text, h⟩

/-- What is found out about configurations: by checking them, and by loading them from a file. -/
structure Exact (check : Config → List Issue)
    (load : Path → Memory → Except LoadError Config) : Prop where
  /-- Nothing is found in the configurations with which nothing is wrong, and in no others. -/
  none_iff : ∀ c, check c = [] ↔ c.Valid
  /-- Every rule that is broken is reported at its field, and nothing else is. -/
  mem_iff : ∀ c i, i ∈ check c ↔ c.Breaks i
  /-- No field is reported twice. -/
  once : ∀ c, ((check c).map Issue.location).Nodup
  /-- A prefix is reported for each source that has the prefix of an earlier one. -/
  reused_iff : ∀ c name s, c.backends.get? name = some s →
    ((∃ i ∈ check c, i.location = ((Location.root.key "backends").key name).key "urn_prefix") ↔
      ∃ previous, c.Reuses name s previous)
  loaded : ∀ path memory c, load path memory = .ok c → c.Sound

/-- **Checking.** It finds what is wrong with a configuration and nothing else, once, and no
    configuration is loaded that is not sound. -/
theorem exact_issues :
    Exact issues fun path memory => ((load path : StateM Memory _).run memory).1 where
  none_iff _ := issues_eq_nil_iff
  mem_iff _ _ := mem_issues
  once c := (sublist_fields c).nodup (nodup_fields c)
  reused_iff c name s hget := by
    constructor
    · rintro ⟨i, hi, hlocation⟩
      obtain ⟨previous, hnearest⟩ := nearest_of_location hget (mem_issues.1 hi) hlocation
      exact ⟨previous, hnearest.1⟩
    · rintro ⟨other, hother⟩
      obtain ⟨previous, hnearest⟩ := exists_nearest hget hother
      exact ⟨_, mem_issues.2 (.reuse hget hnearest), rfl⟩
  loaded path memory c h := by
    obtain ⟨value?, text, hread⟩ := exists_read h
    exact sound_of_read hread

/-- Of three sources with one prefix, each later one reuses that of the one before it. -/
example : (sourceIssues [] (["a", "b", "c"].map fun name =>
    (name, { urnPrefix := "p", scenarios := ⟨"s.json"⟩ }))).map Issue.message =
      ["backend `b` reuses urn_prefix `p` of backend `a`",
        "backend `c` reuses urn_prefix `p` of backend `b`"] := by
  decide

end Config

end Runbook
