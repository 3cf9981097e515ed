import Runbook.Proofs.Dict
import Runbook.Proofs.Graph.Numbering

namespace Runbook

/-!
# Runbook graphs — what a check finds

A check lists one issue for each defect of a document and nothing else.  What is a defect is said
here of a visited step and the steps that are visited before it, without going through the checks.

* `Part`, `Location.follow?` — the parts of a document and where a location leads;
* `Visit`, `visits` — the visited steps with their places and ids;
* `Defect`, `Defective` — what can be wrong with a visited step, and when it is;
* `Defect.issue` — how a defect is reported;
* `Graph.Finds`, `Graph.Inspected` — what a check of a step reports, and what building reports of
  the steps that it visits;
* `Exposes`, `exposes_validate` — the list of a check has one issue for each defect.
-/

open Step (visit visitAll visit_eq executeKind ifKind forKind)

/-! ### Parts of a document -/

/-- A part of a document that a location can lead to. -/
inductive Part where
  | whole (document : List Step)
  | step (s : Step)
  /-- A field of a step, whether or not anything is written there. -/
  | field (s : Step) (f : Step.Field)
  /-- A text in a table of a step. -/
  | entry (s : Step) (f : Step.TableField) (name text : String)

/-- The part of a part that a segment selects. -/
def Part.child? : Part → Segment → Option Part
  | whole document, .index i => document[i]?.map step
  | step s, .key name => (Step.Field.ofName? name).map (field s)
  | field s (.block f), .index i => (s.getBlock f)[i]?.map step
  | field s (.table f), .key name => ((s.getTable f).get? name).map (entry s f name)
  | _, _ => none

namespace Location

/-- Where a location leads from the root of a document. -/
def follow? (document : List Step) (l : Location) : Option Part :=
  l.segments.foldlM Part.child? (.whole document)

variable {document : List Step} {l place : Location}

/-- Following one more segment is `Part.child?` of the part that was reached. -/
theorem follow?_segment {part : Part} (h : l.follow? document = some part) (x : Segment) :
    (⟨l.segments ++ [x]⟩ : Location).follow? document = part.child? x := by
  rw [follow?] at h
  rw [follow?, List.foldlM_append, h]
  exact bind_pure (part.child? x)

/-- `follow?_segment` for the name of a field or of an entry. -/
theorem follow?_key {part : Part} (h : l.follow? document = some part) (name : String) :
    (l.key name).follow? document = part.child? (.key name) :=
  follow?_segment h _

/-- `follow?_segment` for a position in a block. -/
theorem follow?_index {part : Part} (h : l.follow? document = some part) (i : Nat) :
    (l.index i).follow? document = part.child? (.index i) :=
  follow?_segment h _

/-- Every field of a step can be reached, also one in which nothing is written. -/
theorem follow?_field {s : Step} (h : l.follow? document = some (.step s)) (f : Step.Field) :
    (l.key f.name).follow? document = some (.field s f) := by
  rw [follow?_key h, Part.child?, Step.Field.ofName?_name, Option.map_some]

/-- The `i`-th step of a block is reached as `visitAll` counts it, from position 0 on. -/
theorem follow?_block {s : Step} (h : l.follow? document = some (.step s)) (f : Step.BlockField)
    (i : Nat) (s' : Step) (hs' : (s.getBlock f)[i]? = some s') :
    ((l.key (Step.Field.block f).name).index (0 + i)).follow? document = some (.step s') := by
  rw [Nat.zero_add, follow?_index (follow?_field h _), Part.child?, hs', Option.map_some]

mutual

/-- The places of the steps inside a step lead to them, if its own place leads to it. -/
theorem follow?_visit {place : Location} : ∀ {s : Step}, place.follow? document = some (.step s) →
    ∀ p ∈ visit place s, p.1.follow? document = some (.step p.2)
  | ⟨id, kind, urn, params, exports, condition, onTrue, onFalse, iterateOn, itemAs, body⟩, h, p,
    hp => by
    rw [visit, List.mem_cons] at hp
    rcases hp with rfl | hp
    · exact h
    split at hp
    · rcases List.mem_append.1 hp with hp | hp
      · exact follow?_visitAll (follow?_block h .onTrue) p hp
      · exact follow?_visitAll (follow?_block h .onFalse) p hp
    · split at hp
      · exact follow?_visitAll (follow?_block h .body) p hp
      · exact absurd hp List.not_mem_nil

/-- The case of `follow?_visit` for steps in a row, the first of which stands at `position`. -/
theorem follow?_visitAll {place : Location} : ∀ {position : Nat} {steps : List Step},
    (∀ i s, steps[i]? = some s → (place.index (position + i)).follow? document = some (.step s)) →
    ∀ p ∈ visitAll place position steps, p.1.follow? document = some (.step p.2)
  | position, [], _, p, hp => by
    rw [visitAll] at hp
    exact absurd hp List.not_mem_nil
  | position, s :: rest, h, p, hp => by
    rw [visitAll] at hp
    rcases List.mem_append.1 hp with hp | hp
    · exact follow?_visit (h 0 s rfl) p hp
    · refine follow?_visitAll (fun i s' hs' => ?_) p hp
      rw [Nat.add_right_comm]
      exact h (i + 1) s' hs'

end

/-- The place of a visited step leads to it. -/
theorem follow?_of_mem_visitAll {p : Location × Step} (h : p ∈ visitAll .root 0 document) :
    p.1.follow? document = some (.step p.2) := by
  have hroot : Location.root.follow? document = some (.whole document) := rfl
  refine follow?_visitAll (fun i s hs => ?_) p h
  rw [follow?_index hroot, Part.child?, Nat.zero_add, hs, Option.map_some]

end Location

/-! ### Visited steps -/

/-- A step that is visited. -/
structure Visit where
  place : Location
  step : Step
  /-- The id it was written with, less the blanks around it, or the id it was supplied with. -/
  id : String

/-- Gives the steps of a listing their ids, the first from the source `ids`. -/
def identify (ids : IdSource) : List (Location × Step) → List Visit
  | [] => []
  | p :: rest => ⟨p.1, p.2, (ids.name p.2.id).1⟩ :: identify (ids.name p.2.id).2 rest

/-- The visited steps of a document in the order in which they are written. -/
def visits (document : List Step) : List Visit := identify .fresh (visitAll .root 0 document)

/-- The second half of a listing is given ids by what `IdSource.after` leaves of the source. -/
theorem identify_append (ids : IdSource) (l l' : List (Location × Step)) :
    identify ids (l ++ l') = identify ids l ++ identify (ids.after (l.map fun p => p.2.id)) l' := by
  induction l generalizing ids with
  | nil => rfl
  | cons p rest ih =>
    rw [List.cons_append, identify, identify, ih]
    rfl

/-- `identify` adds ids and leaves places and steps as they are. -/
theorem map_identify (ids : IdSource) (l : List (Location × Step)) :
    (identify ids l).map (fun v => (v.place, v.step)) = l := by
  induction l generalizing ids with
  | nil => rfl
  | cons p rest ih => rw [identify, List.map_cons, ih]

/-- No step is visited twice, since no two visits have one place (`Step.nodup_visitAll`). -/
theorem nodup_visits (document : List Step) : (visits document).Nodup := by
  refine List.Nodup.of_map Visit.place ?_
  have hplaces := Step.nodup_visitAll .root 0 document
  rw [← map_identify .fresh (visitAll .root 0 document), List.map_map] at hplaces
  exact hplaces

/-! ### Defects -/

/-- Nothing is written, or nothing but blanks. -/
def Blank (written : Option String) : Prop := ∀ s ∈ written, Text.isBlankText s = true

/-- A token that looks like a reference and is none. -/
def Unrecognized (token : String) : Prop :=
  Reference.needsLookup token = true ∧ Reference.parse? token = none

instance (token : String) : Decidable (Unrecognized token) := inferInstanceAs (Decidable (_ ∧ _))

/-- What can be wrong with a visited step. -/
inductive Defect where
  | repeatedId
  | unknownKind
  | missingUrn
  | unrecognizedParam (name token : String)
  | missingCondition
  | unreadableCondition (e : ParseError)
  | unrecognizedOperand (token : String)
  | missingElements
  | fixedElements
  | unrecognizedElements
  deriving DecidableEq

/-- The step `v` has the defect, if the steps `earlier` are visited before it.  A step is judged by
    the fields that its kind makes use of. -/
def Defective (earlier : List Visit) (v : Visit) : Defect → Prop
  | .repeatedId => ∃ w ∈ earlier, w.id = v.id
  | .unknownKind => v.step.effectiveKind ∉ [executeKind, ifKind, forKind]
  | .missingUrn => v.step.effectiveKind = executeKind ∧ Blank v.step.urn
  | .unrecognizedParam name token => v.step.effectiveKind = executeKind ∧
      v.step.params.get? name = some token ∧ Unrecognized token
  | .missingCondition => v.step.effectiveKind = ifKind ∧ Blank v.step.condition
  | .unreadableCondition e => v.step.effectiveKind = ifKind ∧ ¬ Blank v.step.condition ∧
      ∃ s ∈ v.step.condition, Comparison.parse s = .error e
  | .unrecognizedOperand token => v.step.effectiveKind = ifKind ∧ ∃ s ∈ v.step.condition, ∃ c,
      Comparison.parse s = .ok c ∧ (c.lhs = .reference token ∨ c.rhs = .reference token) ∧
        Unrecognized token
  | .missingElements => v.step.effectiveKind = forKind ∧ Blank v.step.iterateOn
  | .fixedElements => v.step.effectiveKind = forKind ∧ ¬ Blank v.step.iterateOn ∧
      ∃ s ∈ v.step.iterateOn, Reference.needsLookup (Text.trim s) = false
  | .unrecognizedElements => v.step.effectiveKind = forKind ∧
      ∃ s ∈ v.step.iterateOn, Unrecognized (Text.trim s)

namespace Defect

/-- The field of the step that has the defect. -/
def field : Defect → Step.Field
  | repeatedId => .text .id
  | unknownKind => .text .kind
  | missingUrn => .text .urn
  | unrecognizedParam .. => .table .params
  | missingCondition | unreadableCondition _ | unrecognizedOperand _ => .text .condition
  | missingElements | fixedElements | unrecognizedElements => .text .iterateOn

/-- The part of the step that has the defect: one of its fields, or an entry of its parameters. -/
def part (s : Step) : Defect → Part
  | unrecognizedParam name token => .entry s .params name token
  | d => .field s d.field

/-- Where the defect of a step at `place` is reported. -/
def location (place : Location) : Defect → Location
  | unrecognizedParam name _ => (place.key (Step.Field.table .params).name).key name
  | d => place.key d.field.name

/-- An unrecognized reference may stand in a branch that never runs. -/
def severity : Defect → Severity
  | unrecognizedParam .. | unrecognizedOperand _ | unrecognizedElements => .warning
  | _ => .error

/-- The kind of issue that the defect is reported as. -/
def kind : Defect → String
  | repeatedId => "duplicate_id"
  | unknownKind => "unknown_type"
  | missingUrn | missingCondition | missingElements => "missing_field"
  | unreadableCondition _ => "condition_parse"
  | fixedElements => "invalid_reference"
  | unrecognizedParam .. | unrecognizedOperand _ | unrecognizedElements => "unrecognized_reference"

/-- The rule that is broken. -/
def rule : Defect → String
  | repeatedId => "node.id.unique"
  | unknownKind => "node.type.known"
  | missingUrn => "node.execute.urn"
  | missingCondition => "node.if.condition"
  | unreadableCondition _ => "node.if.condition.parse"
  | missingElements => "node.for.iterate_on"
  | fixedElements => "node.for.iterate_on.reference"
  | unrecognizedParam .. | unrecognizedOperand _ | unrecognizedElements => "reference.grammar"

/-- What is said of a token that is `Unrecognized`. -/
def unrecognizedMessage (token : String) : String :=
  "`" ++ token ++ "` does not match @alert:, @node:<id>$<field> or $<name>"

/-- What is said of a defect of the visited step `v`. -/
def message (v : Visit) : Defect → String
  | repeatedId => "node id `" ++ v.id ++ "` is used more than once"
  | unknownKind => "node type `" ++ v.step.effectiveKind ++ "` is not one of execute, if, for"
  | missingUrn => "execute node requires a non-empty urn"
  | missingCondition => "if node requires a condition"
  | unreadableCondition e => e.message
  | missingElements => "for node requires iterateOn"
  | fixedElements =>
    "iterateOn `" ++ Graph.trimmed v.step.iterateOn ++ "` must be a variable reference"
  | unrecognizedParam _ token | unrecognizedOperand token => unrecognizedMessage token
  | unrecognizedElements => unrecognizedMessage (Graph.trimmed v.step.iterateOn)

/-- How a defect of a visited step is reported. -/
def issue (v : Visit) (d : Defect) : Issue where
  kind := d.kind
  severity := d.severity
  nodeId := some v.id
  location := d.location v.place
  message := d.message v
  reference := some d.rule

/-- The location of a defect leads to the part of the step that has it. -/
theorem follow?_location {document : List Step} {earlier : List Visit} {v : Visit} {d : Defect}
    (hplace : v.place.follow? document = some (.step v.step)) (hd : Defective earlier v d) :
    (d.location v.place).follow? document = some (d.part v.step) := by
  cases d
  case unrecognizedParam name token =>
    have hget : v.step.params.get? name = some token := hd.2.1
    have hfield := Location.follow?_field hplace (.table .params)
    rw [location, part, Location.follow?_key hfield, Part.child?, Step.getTable, hget,
      Option.map_some]
  all_goals exact Location.follow?_field hplace _

end Defect

/-! ### Defects in the order in which they are found -/

/-- `Graph.trimmed` is empty for what is `Blank`, the test that all checks of fields make. -/
theorem isEmpty_trimmed {written : Option String} :
    (Graph.trimmed written).isEmpty = true ↔ Blank written := by
  cases written with
  | none => simp [Graph.trimmed, Blank]
  | some s => simp [Graph.trimmed, Blank, Text.isEmpty_trim]

namespace Step

/-- What is wrong with the fields of an action. -/
def actionDefects (s : Step) : List Defect :=
  (if (Graph.trimmed s.urn).isEmpty then [.missingUrn] else []) ++
    (s.params.entries.filter fun p => Unrecognized p.2).map fun p => .unrecognizedParam p.1 p.2

/-- What is wrong with the condition of a choice. -/
def conditionDefects (s : Step) : List Defect :=
  if Text.isBlankText (s.condition.getD "") then [.missingCondition]
  else
    match Comparison.parse (s.condition.getD "") with
    | .ok c => (c.references.filter fun token => Unrecognized token).map .unrecognizedOperand
    | .error e => [.unreadableCondition e]

/-- What is wrong with the elements of a loop. -/
def elementsDefects (s : Step) : List Defect :=
  if (Graph.trimmed s.iterateOn).isEmpty then [.missingElements]
  else if Reference.needsLookup (Graph.trimmed s.iterateOn) then
    if Unrecognized (Graph.trimmed s.iterateOn) then [.unrecognizedElements] else []
  else [.fixedElements]

/-- What is wrong with a step, whatever its id. -/
def defects (s : Step) : List Defect :=
  if s.effectiveKind = executeKind then s.actionDefects
  else if s.effectiveKind = ifKind then s.conditionDefects
  else if s.effectiveKind = forKind then s.elementsDefects
  else [.unknownKind]

end Step

namespace Step

variable {s : Step} {d : Defect}

/-- `actionDefects` against `Defective`: the urn, then the parameters. -/
theorem mem_actionDefects : d ∈ s.actionDefects ↔
    d = .missingUrn ∧ Blank s.urn ∨
      ∃ name token, d = .unrecognizedParam name token ∧ s.params.get? name = some token ∧
        Unrecognized token := by
  rw [actionDefects, List.mem_append, List.mem_ite_nil_right, List.mem_singleton, isEmpty_trimmed,
    and_comm]
  refine or_congr_right ?_
  simp only [List.mem_map, List.mem_filter, decide_eq_true_eq, Prod.exists, ← Dict.mem_entries]
  grind

/-- `conditionDefects` against `Defective`: a condition is missing, or not readable, or it is read
    and its operands are judged. -/
theorem mem_conditionDefects : d ∈ s.conditionDefects ↔
    d = .missingCondition ∧ Blank s.condition ∨
      (∃ e, d = .unreadableCondition e ∧ ¬ Blank s.condition ∧
        ∃ t ∈ s.condition, Comparison.parse t = .error e) ∨
      ∃ token, d = .unrecognizedOperand token ∧ ∃ t ∈ s.condition, ∃ c,
        Comparison.parse t = .ok c ∧ (c.lhs = .reference token ∨ c.rhs = .reference token) ∧
          Unrecognized token := by
  rw [conditionDefects]
  cases hcondition : s.condition with
  | none => simp [Blank, Text.isBlankText]
  | some t =>
    have hblank : Blank (some t) ↔ Text.isBlankText t = true := by simp [Blank]
    rw [Option.getD_some, hblank]
    by_cases ht : Text.isBlankText t = true
    · -- A blank text is missing, and it is no comparison.
      have hparse : Comparison.parse t = .error .empty := by rw [Comparison.parse, if_pos ht]
      simp [ht, hparse]
    · rw [if_neg ht]
      cases hparse : Comparison.parse t with
      | error e => simp [ht, hparse]
      | ok c =>
        simp only [List.mem_map, List.mem_filter, Comparison.mem_references, decide_eq_true_eq]
        simp [ht, hparse]
        grind

/-- `elementsDefects` against `Defective`: elements are missing, or fixed, or a token that is
    `Unrecognized`. -/
theorem mem_elementsDefects : d ∈ s.elementsDefects ↔
    d = .missingElements ∧ Blank s.iterateOn ∨
      (d = .fixedElements ∧ ¬ Blank s.iterateOn ∧
        ∃ t ∈ s.iterateOn, Reference.needsLookup (Text.trim t) = false) ∨
      d = .unrecognizedElements ∧ ∃ t ∈ s.iterateOn, Unrecognized (Text.trim t) := by
  rw [elementsDefects]
  cases helements : s.iterateOn with
  | none => simp [Blank, Graph.trimmed]
  | some t =>
    have hblank : Blank (some t) ↔ Text.isBlankText t = true := by simp [Blank]
    have htrimmed : Graph.trimmed (some t) = Text.trim t := rfl
    rw [htrimmed, Text.isEmpty_trim, hblank]
    by_cases ht : Text.isBlankText t = true
    · -- Nothing is left of a blank text that could look like a reference.
      have hempty : Text.trim t = "" := String.isEmpty_iff.1 ((Text.isEmpty_trim t).trans ht)
      have hlookup : Reference.needsLookup "" = false := by decide
      simp [ht, hempty, Unrecognized, hlookup]
    · rw [if_neg ht]
      cases hlookup : Reference.needsLookup (Text.trim t) with
      | false => simp [ht, hlookup, Unrecognized]
      | true =>
        rw [if_pos rfl, List.mem_ite_nil_right]
        simp [ht, hlookup, and_comm]

/-- Parameters are told apart by their names, so no two of their defects are the same. -/
theorem nodup_actionDefects (s : Step) : s.actionDefects.Nodup := by
  -- The names of parameters are not repeated.
  have hentries : s.params.entries.Nodup := s.params.sorted.imp fun {a b} hab hEq =>
    absurd hab (by rw [hEq]; exact Std.lt_irrefl)
  rw [actionDefects, List.nodup_append]
  refine ⟨by split <;> simp, ?_, ?_⟩
  · refine (hentries.filter _).map fun p q hpq => ?_
    obtain ⟨hname, htoken⟩ := Defect.unrecognizedParam.inj hpq
    exact Prod.ext hname htoken
  · intro d hd d' hd'
    obtain ⟨p, -, rfl⟩ := List.mem_map.1 hd'
    rw [List.mem_ite_nil_right, List.mem_singleton] at hd
    rw [hd.2]
    exact Defect.noConfusion

/-- Operands that are the same token are reported once, by `Comparison.nodup_references`. -/
theorem nodup_conditionDefects (s : Step) : s.conditionDefects.Nodup := by
  rw [conditionDefects]
  split
  · exact List.nodup_singleton _
  · split
    · exact ((Comparison.nodup_references _).filter _).map fun a b hab =>
        Defect.unrecognizedOperand.inj hab
    · exact List.nodup_singleton _

/-- Only the check of the step's own kind is made, so `Step.defects` has no repetition. -/
theorem nodup_defects (s : Step) : s.defects.Nodup := by
  rw [defects]
  split
  · exact nodup_actionDefects s
  · split
    · exact nodup_conditionDefects s
    · rw [elementsDefects]
      repeat' split
      all_goals simp

/-- An id is judged by the ids before it and not by the other fields of its step. -/
theorem repeatedId_notMem_defects (s : Step) : .repeatedId ∉ s.defects := by
  rw [defects]
  split
  · simp [mem_actionDefects]
  · split
    · simp [mem_conditionDefects]
    · split
      · simp [mem_elementsDefects]
      · simp

end Step

/-- What is wrong with a step if the steps `earlier` are visited before it. -/
def Visit.defects (earlier : List Visit) (v : Visit) : List Defect :=
  (if ∃ w ∈ earlier, w.id = v.id then [.repeatedId] else []) ++ v.step.defects

/-- `Visit.defects` lists what `Defective` says of a visited step, its id included. -/
theorem mem_defects {earlier : List Visit} {v : Visit} {d : Defect} :
    d ∈ v.defects earlier ↔ Defective earlier v d := by
  have hkinds : executeKind ≠ ifKind ∧ executeKind ≠ forKind ∧ ifKind ≠ forKind := by decide
  obtain ⟨hif, hfor, hifFor⟩ := hkinds
  rw [Visit.defects, List.mem_append, List.mem_ite_nil_right, List.mem_singleton, Step.defects]
  by_cases hexec : v.step.effectiveKind = executeKind
  · rw [if_pos hexec, Step.mem_actionDefects]
    cases d <;> simp [Defective, hexec, hif, hfor]
  by_cases hkind : v.step.effectiveKind = ifKind
  · rw [if_neg hexec, if_pos hkind, Step.mem_conditionDefects]
    cases d <;> simp [Defective, hkind, hif.symm, hifFor]
  by_cases hkind' : v.step.effectiveKind = forKind
  · rw [if_neg hexec, if_neg hkind, if_pos hkind', Step.mem_elementsDefects]
    cases d <;> simp [Defective, hkind', hfor.symm, hifFor.symm]
  · rw [if_neg hexec, if_neg hkind, if_neg hkind', List.mem_singleton]
    cases d <;> simp [Defective, hexec, hkind, hkind']

namespace Visit

/-- A repeated id is reported once, however many of the steps `earlier` have it. -/
theorem nodup_defects (earlier : List Visit) (v : Visit) : (v.defects earlier).Nodup := by
  rw [defects, List.nodup_append]
  refine ⟨by split <;> simp, v.step.nodup_defects, ?_⟩
  rintro d hd d' hd' rfl
  rw [List.mem_ite_nil_right, List.mem_singleton] at hd
  exact v.step.repeatedId_notMem_defects (hd.2 ▸ hd')

/-- What is wrong with the steps `visited`, each judged with the steps before it, of which the steps
    `earlier` are the first. -/
def allDefects (earlier : List Visit) : List Visit → List (Visit × Defect)
  | [] => []
  | v :: rest => (v.defects earlier).map (v, ·) ++ allDefects (earlier ++ [v]) rest

/-- One visited step has its own `Visit.defects`. -/
theorem allDefects_singleton (earlier : List Visit) (v : Visit) :
    allDefects earlier [v] = (v.defects earlier).map (v, ·) := by
  rw [allDefects, allDefects, List.append_nil]

/-- Steps that are visited later are judged with all that were visited before them. -/
theorem allDefects_append (earlier l l' : List Visit) :
    allDefects earlier (l ++ l') = allDefects earlier l ++ allDefects (earlier ++ l) l' := by
  induction l generalizing earlier with
  | nil => rw [List.append_nil]; rfl
  | cons v rest ih =>
    rw [List.cons_append, allDefects, allDefects, ih, List.append_assoc, List.append_assoc]
    rfl

/-- `Visit.allDefects` lists what `Defective` says of each step with the steps `before` it. -/
theorem mem_allDefects {earlier visited : List Visit} {v : Visit} {d : Defect} :
    (v, d) ∈ allDefects earlier visited ↔
      ∃ before after, visited = before ++ v :: after ∧ Defective (earlier ++ before) v d := by
  induction visited generalizing earlier with
  | nil => simp [allDefects]
  | cons w rest ih =>
    rw [allDefects, List.mem_append, ih]
    constructor
    · rintro (h | ⟨before, after, rfl, hd⟩)
      · obtain ⟨d, hd, hpair⟩ := List.mem_map.1 h
        obtain ⟨rfl, rfl⟩ := Prod.mk.inj hpair
        exact ⟨[], rest, rfl, by rw [List.append_nil]; exact mem_defects.1 hd⟩
      · exact ⟨w :: before, after, rfl, by rwa [List.append_assoc] at hd⟩
    · rintro ⟨before, after, hvisited, hd⟩
      cases before with
      | nil =>
        obtain ⟨rfl, rfl⟩ := List.cons.inj hvisited
        rw [List.append_nil] at hd
        exact .inl (List.mem_map.2 ⟨d, mem_defects.2 hd, rfl⟩)
      | cons w' before =>
        obtain ⟨rfl, rfl⟩ := List.cons.inj hvisited
        exact .inr ⟨before, after, rfl, by rwa [List.append_assoc]⟩

/-- No defect is listed twice, if no step is visited twice. -/
theorem nodup_allDefects {visited : List Visit} (h : visited.Nodup) (earlier : List Visit) :
    (allDefects earlier visited).Nodup := by
  induction visited generalizing earlier with
  | nil => exact List.nodup_nil
  | cons v rest ih =>
    obtain ⟨hv, hrest⟩ := List.nodup_cons.1 h
    rw [allDefects, List.nodup_append]
    refine ⟨(v.nodup_defects earlier).map fun _ _ hpair => (Prod.mk.inj hpair).2,
      ih hrest (earlier ++ [v]), ?_⟩
    rintro p hp ⟨w, d⟩ hw rfl
    obtain ⟨d', -, hpair⟩ := List.mem_map.1 hp
    obtain ⟨before, after, rfl, -⟩ := mem_allDefects.1 hw
    obtain ⟨rfl, -⟩ := Prod.mk.inj hpair
    exact hv (List.mem_append_right _ List.mem_cons_self)

end Visit

/-! ### Checks report defects -/

namespace Graph

/-- The check reports the defects `found` of the step `v` and does nothing else. -/
def Finds (v : Visit) (check : Building (List String) Unit) (found : List Defect) : Prop :=
  ∀ d, check.run d = ((), { d with found := (found.map (Defect.issue v)).reverse ++ d.found })

namespace Finds

variable {v : Visit} {check check' : Building (List String) Unit} {found found' : List Defect}

/-- A check that does nothing finds nothing. -/
theorem pure (v : Visit) : Finds v (Pure.pure ()) [] := fun _ => rfl

/-- `Graph.report` finds the defect that the issue is the `Defect.issue` of. -/
theorem report {issue : Issue} {d : Defect} (h : { issue with nodeId := some v.id } = d.issue v) :
    Finds v (report v.id issue) [d] := fun draft => by
  rw [List.map_singleton, ← h]
  rfl

/-- What two checks in a row find, in their order. -/
theorem bind (h : Finds v check found) (h' : Finds v check' found') :
    Finds v (check >>= fun _ => check') (found ++ found') := fun d => by
  rw [run_bind, h, h', List.map_append, List.reverse_append, List.append_assoc]

/-- A check of each entry of a list finds the defects of those for which `p` holds. -/
theorem forM {α : Type} {f : α → Building (List String) Unit} {p : α → Prop} [DecidablePred p]
    {g : α → Defect} (h : ∀ a, Finds v (f a) (if p a then [g a] else [])) (l : List α) :
    Finds v (l.forM f) ((l.filter fun a => p a).map g) := by
  induction l with
  | nil => exact .pure v
  | cons a rest ih =>
    have hrest := (h a).bind ih
    rw [List.filter_cons]
    by_cases ha : p a
    · rw [if_pos ha] at hrest
      rw [if_pos (decide_eq_true ha)]
      exact hrest
    · rw [if_neg ha] at hrest
      rw [if_neg (by simpa using ha)]
      exact hrest

/-- `Graph.checkReference` finds the defect `d` of a token that is `Unrecognized`, if `d` is
    reported as the warning that it writes. -/
theorem checkReference {location : Location} {token : String} {d : Defect}
    (h : { Issue.error "unrecognized_reference" location (Defect.unrecognizedMessage token)
      "reference.grammar" with severity := .warning, nodeId := some v.id } = d.issue v) :
    Finds v (checkReference v.id location token) (if Unrecognized token then [d] else []) := by
  rw [Graph.checkReference]
  by_cases htoken : Unrecognized token
  · have hcheck : (Reference.needsLookup token && (Reference.parse? token).isNone) = true := by
      rw [htoken.1, htoken.2]
      rfl
    rw [if_pos hcheck, if_pos htoken]
    exact .report h
  · have hcheck : ¬ (Reference.needsLookup token && (Reference.parse? token).isNone) = true := by
      rw [Bool.and_eq_true, Option.isNone_iff_eq_none]
      exact htoken
    rw [if_neg hcheck, if_neg htoken]
    exact .pure v

/-- `Graph.checkAction` finds the `Step.defects` of an action. -/
theorem checkAction (hkind : v.step.effectiveKind = executeKind) :
    Finds v (checkAction v.id v.place (trimmed v.step.urn) v.step.params) v.step.defects := by
  have hparams : Finds v (v.step.params.entries.forM fun p =>
      Graph.checkReference v.id ((v.place.key "params").key p.1) p.2)
      ((v.step.params.entries.filter fun p => Unrecognized p.2).map fun p =>
        .unrecognizedParam p.1 p.2) :=
    .forM (fun p => .checkReference rfl) _
  rw [Graph.checkAction, Step.defects, if_pos hkind, Step.actionDefects]
  split
  · exact .bind (.report rfl) hparams
  · exact .bind (.pure v) hparams

/-- `Graph.checkCondition` finds the `Step.defects` of a choice. -/
theorem checkCondition (hkind : v.step.effectiveKind = ifKind) :
    Finds v (checkCondition v.id v.place (v.step.condition.getD "")) v.step.defects := by
  rw [Step.defects, hkind, if_neg (by decide), if_pos rfl, Step.conditionDefects]
  unfold Graph.checkCondition
  split
  · exact .report rfl
  · cases Comparison.parse (v.step.condition.getD "") with
    | ok c => exact .forM (fun token => .checkReference rfl) _
    | error e => exact .report rfl

/-- `Graph.checkElements` finds the `Step.defects` of a loop. -/
theorem checkElements (hkind : v.step.effectiveKind = forKind) :
    Finds v (checkElements v.id v.place (trimmed v.step.iterateOn)) v.step.defects := by
  rw [Step.defects, hkind, if_neg (by decide), if_neg (by decide), if_pos rfl,
    Step.elementsDefects]
  unfold Graph.checkElements
  split
  · exact .report rfl
  · split
    · exact .checkReference rfl
    · exact .report rfl

/-- `Graph.reportKind` finds the one defect of a step whose kind is not known. -/
theorem reportKind (hexec : v.step.effectiveKind ≠ executeKind)
    (hif : v.step.effectiveKind ≠ ifKind) (hfor : v.step.effectiveKind ≠ forKind) :
    Finds v (reportKind v.id v.place v.step.effectiveKind) v.step.defects := by
  rw [Step.defects, if_neg hexec, if_neg hif, if_neg hfor]
  exact .report rfl

end Finds

/-! ### Building reports all defects -/

/-- From `d` to `d'` the steps `visited` were visited, after the steps `earlier`: their defects are
    reported, and the ids of all of them are known. -/
structure Inspected (earlier visited : List Visit) (d d' : Sketch) : Prop where
  found : d'.found =
    ((Visit.allDefects earlier visited).map fun p => p.2.issue p.1).reverse ++ d.found
  seen : ∀ id, id ∈ d'.seen ↔ ∃ w ∈ earlier ++ visited, w.id = id

variable {earlier visited visited' : List Visit} {d d₁ d₂ : Sketch} {v : Visit}

/-- Nothing is visited and nothing is reported. -/
theorem Inspected.nil (h : ∀ id, id ∈ d.seen ↔ ∃ w ∈ earlier, w.id = id) :
    Inspected earlier [] d d where
  found := rfl
  seen id := by rw [List.append_nil]; exact h id

/-- Two stretches in a row, the second after the steps of the first. -/
theorem Inspected.append (h : Inspected earlier visited d d₁)
    (h' : Inspected (earlier ++ visited) visited' d₁ d₂) :
    Inspected earlier (visited ++ visited') d d₂ where
  found := by
    rw [h'.found, h.found, Visit.allDefects_append, List.map_append, List.reverse_append,
      List.append_assoc]
  seen id := by
    rw [← List.append_assoc]
    exact h'.seen id

/-- The id of a step is claimed, then its fields are checked. -/
theorem Inspected.singleton {check : Building (List String) Unit}
    (hcheck : Finds v check v.step.defects)
    (hseen : ∀ id, id ∈ d.seen ↔ ∃ w ∈ earlier, w.id = id) (ids : IdSource) :
    Inspected earlier [v] d (check.run ((claimId v.id v.place).run { d with ids := ids }).2).2 ∧
      (check.run ((claimId v.id v.place).run { d with ids := ids }).2).2.ids = ids := by
  have hmem : ∀ id, (∃ w ∈ earlier ++ [v], w.id = id) ↔ id = v.id ∨ id ∈ d.seen := fun id => by
    rw [hseen]
    simp only [List.mem_append, List.mem_singleton]
    grind
  have hdefects := Visit.allDefects_singleton earlier v
  rw [Visit.defects] at hdefects
  rw [hcheck]
  refine ⟨?_, (Blind.claimId v.id v.place).ids_eq { d with ids := ids }⟩
  rw [run_claimId]
  by_cases hrepeated : d.seen.contains v.id = true
  · have hv : v.id ∈ d.seen := List.contains_iff_mem.1 hrepeated
    rw [if_pos ((hseen _).1 hv)] at hdefects
    rw [if_pos hrepeated]
    constructor
    case found =>
      rw [hdefects, List.map_map, List.map_append, List.reverse_append, List.append_assoc]
      rfl
    case seen =>
      intro id
      rw [hmem]
      exact ⟨.inr, fun h => h.elim (fun hid => hid ▸ hv) fun h => h⟩
  · have hv : v.id ∉ d.seen := fun h => hrepeated (List.contains_iff_mem.2 h)
    rw [if_neg fun h => hv ((hseen _).2 h), List.nil_append] at hdefects
    rw [if_neg hrepeated]
    constructor
    case found =>
      rw [hdefects, List.map_map]
      rfl
    case seen =>
      intro id
      rw [hmem]
      exact List.mem_cons

mutual

/-- `Graph.node` inspects a step and the steps inside it, in the order of `visit`. -/
theorem inspected_node (location : Location) : ∀ (s : Step) (earlier : List Visit) (d : Sketch),
    (∀ id, id ∈ d.seen ↔ ∃ w ∈ earlier, w.id = id) →
      Inspected earlier (identify d.ids (visit location s)) d ((node location s).run d).2
  | ⟨id, kind, urn, params, exports, condition, onTrue, onFalse, iterateOn, itemAs, body⟩, earlier,
    d, hseen => by
    let v : Visit := ⟨location, ⟨id, kind, urn, params, exports, condition, onTrue, onFalse,
      iterateOn, itemAs, body⟩, (d.ids.name id).1⟩
    rw [node, run_bind, run_bind, run_chooseId, visit, identify]
    dsimp only
    by_cases hexec : kind.getD executeKind = executeKind
    · have hstep := Inspected.singleton (Finds.checkAction (v := v) hexec) hseen (d.ids.name id).2
      rw [if_pos hexec, hexec, if_neg (by decide), if_neg (by decide), run_bind, identify]
      exact hstep.1
    rw [if_neg hexec]
    by_cases hif : kind.getD executeKind = ifKind
    · obtain ⟨hstep, hids⟩ :=
        Inspected.singleton (Finds.checkCondition (v := v) hif) hseen (d.ids.name id).2
      rw [if_pos hif, if_pos hif, run_bind, run_bind, run_bind]
      generalize ((checkCondition _ _ _).run _).2 = d₂ at hstep hids ⊢
      have hyes := inspected_chain (location.key "onTrue") 0 onTrue _ d₂ hstep.seen
      have hno := inspected_chain (location.key "onFalse") 0 onFalse _ _ hyes.seen
      rw [(names_chain (location.key "onTrue") 0 onTrue d₂).2] at hno
      rw [identify_append, ← hids]
      exact hstep.append (hyes.append hno)
    rw [if_neg hif, if_neg hif]
    by_cases hfor : kind.getD executeKind = forKind
    · obtain ⟨hstep, hids⟩ :=
        Inspected.singleton (Finds.checkElements (v := v) hfor) hseen (d.ids.name id).2
      rw [if_pos hfor, if_pos hfor, run_bind, run_bind]
      generalize ((checkElements _ _ _).run _).2 = d₂ at hstep hids ⊢
      rw [← hids]
      exact hstep.append (inspected_chain (location.key "body") 0 body _ d₂ hstep.seen)
    · have hstep := Inspected.singleton (Finds.reportKind (v := v) hexec hif hfor) hseen
        (d.ids.name id).2
      rw [if_neg hfor, if_neg hfor, run_bind, identify]
      exact hstep.1

/-- `Graph.chain` inspects steps in a row and the steps inside them, in the order of `visitAll`. -/
theorem inspected_chain (location : Location) : ∀ (position : Nat) (steps : List Step)
    (earlier : List Visit) (d : Sketch), (∀ id, id ∈ d.seen ↔ ∃ w ∈ earlier, w.id = id) →
      Inspected earlier (identify d.ids (visitAll location position steps)) d
        ((chain location position steps).run d).2
  | position, [], earlier, d, hseen => by
    rw [chain, visitAll, identify]
    exact .nil hseen
  | position, s :: rest, earlier, d, hseen => by
    have hstep := inspected_node (location.index position) s earlier d hseen
    have hrest := inspected_chain location (position + 1) rest _ _ hstep.seen
    rw [(names_node (location.index position) s d).2] at hrest
    rw [chain, run_bind, run_bind, visitAll, identify_append]
    exact hstep.append hrest

end

/-- What is found when the graph of a document is built: the defects of the visited steps. -/
theorem found_draft (document : List Step) (ids : IdSource) :
    (draft document ids).2.found.reverse =
      (Visit.allDefects [] (identify ids (visitAll .root 0 document))).map fun p =>
        p.2.issue p.1 := by
  have hinspected := inspected_chain .root 0 document [] ⟨ids, [], []⟩ (by simp)
  rw [draft, hinspected.found, List.append_nil, List.reverse_reverse]

end Graph

/-! ### The list of a check -/

/-- A list of issues has one issue for each defect of a document and no others: `defects` lists the
    defects with the steps that have them. -/
structure Exposes (document : List Step) (defects : List (Visit × Defect)) (listed : List Issue) :
    Prop where
  /-- No defect is listed twice. -/
  nodup : defects.Nodup
  /-- The listed defects are those of the visited steps, each judged with the steps before it. -/
  mem : ∀ v d, (v, d) ∈ defects ↔
    ∃ before after, visits document = before ++ v :: after ∧ Defective before v d
  /-- Each defect is reported by one issue, and nothing else is reported. -/
  reported : listed.Perm (defects.map fun p => p.2.issue p.1)
  /-- The place of a step leads to it from the root of the document. -/
  place : ∀ v d, (v, d) ∈ defects → v.place.follow? document = some (.step v.step)
  /-- The location of an issue leads from the root of the document to the part that is defective. -/
  location : ∀ v d, (v, d) ∈ defects →
    (d.issue v).location.follow? document = some (d.part v.step)
  /-- An issue names the step that has the defect. -/
  node : ∀ v d, (v, d) ∈ defects → (d.issue v).nodeId = some v.id

/-- **Checks expose defects.** The list that a check answers has one issue for each defect of a
    document and nothing else. -/
theorem exposes_validate (document : List Step) :
    Exposes document (Visit.allDefects [] (visits document)) (Graph.validate document) := by
  have hmem : ∀ v d, (v, d) ∈ Visit.allDefects [] (visits document) ↔
      ∃ before after, visits document = before ++ v :: after ∧ Defective before v d :=
    fun v d => Visit.mem_allDefects
  have hplace : ∀ v d, (v, d) ∈ Visit.allDefects [] (visits document) →
      v.place.follow? document = some (.step v.step) := by
    intro v d h
    obtain ⟨before, after, hvisits, -⟩ := (hmem v d).1 h
    have hv : (v.place, v.step) ∈ visitAll .root 0 document := by
      rw [← map_identify .fresh (visitAll .root 0 document), ← visits, hvisits]
      exact List.mem_map.2 ⟨v, List.mem_append_right _ List.mem_cons_self, rfl⟩
    exact Location.follow?_of_mem_visitAll hv
  constructor
  case nodup => exact Visit.nodup_allDefects (nodup_visits document) []
  case mem => exact hmem
  case reported =>
    have hinspected := Graph.inspected_chain .root 0 document [] ⟨.fresh, [], []⟩ (by simp)
    have hfound : (Graph.draft document .fresh).2.found.reverse =
        (Visit.allDefects [] (visits document)).map fun p => p.2.issue p.1 := by
      rw [Graph.draft, hinspected.found, List.append_nil, List.reverse_reverse]
      rfl
    rw [← hfound, Graph.validate_eq]
    exact List.mergeSort_perm _ _
  case place => exact hplace
  case location =>
    intro v d h
    obtain ⟨before, -, -, hd⟩ := (hmem v d).1 h
    exact Defect.follow?_location (hplace v d h) hd
  case node => exact fun v d _ => rfl

/-- The first action is supplied with the id that the second one has. -/
example : (Visit.allDefects [] (visits [.execute " ", { Step.execute "u" with
      id := some " 1 ", params := .singleton "p" "@x" }])).map Prod.snd =
    [.missingUrn, .repeatedId, .unrecognizedParam "p" "@x"] := by
  decide +kernel

end Runbook
