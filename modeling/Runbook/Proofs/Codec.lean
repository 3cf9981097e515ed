import Runbook.Backend.Mock
import Runbook.Issue.Json
import Runbook.Proofs.Dict
import Runbook.Step.Json

namespace Runbook

/-!
# What is written as JSON is read back

Steps, documents, the entries of a mock and issues are written as JSON values and read from them.
Reading accepts more than is written: members in another order, members that are not known, arrays
in the place of objects, numbers in the place of texts.  What was written is read as it was.

* `Codec` — reading undoes writing, and what was read is written in one way only;
* `Json.known?_of_sublist` — the members of a record are read as its fields;
* `Step.member`, `Step.Says` — how a field of a step is written, and when it is;
* `Step.ofMembers?_flatMap` — some fields of a step are read from their members;
* `Step.ofJson?_toJson`, `Issue.ofJson?_toJson`, `MockEntry.ofJson?_toJson` — reading undoes
  writing;
* `wireFormats` — the formats are codecs that leave out what says nothing.
-/

/-! ### Codecs -/

/-- A way to write values and to read them. -/
structure Codec {α : Type} (read : Json → Option α) (write : α → Json) : Prop where
  /-- What was written is read as it was. -/
  undoes : ∀ a, read (write a) = some a
  /-- What is written for a value that was read stays the same, if it is read and written again. -/
  normal : ∀ j a, read j = some a → (read (write a)).map write = some (write a)

namespace Codec

variable {α : Type} {read : Json → Option α} {write : α → Json}

/-- A `Codec` from its one law, that reading undoes writing. -/
theorem of_undoes (h : ∀ a, read (write a) = some a) : Codec read write where
  undoes := h
  normal j a _ := by rw [h, Option.map_some]

end Codec

namespace Json

variable {α : Type} {read : Json → Option α} {write : α → Json}

/-- `read` undoes `write` in a list, entry by entry. -/
theorem mapM_map {α β : Type} {read : β → Option α} {write : α → β}
    (h : ∀ a, read (write a) = some a) (l : List α) : (l.map write).mapM read = some l := by
  induction l with
  | nil => rfl
  | cons a rest ih =>
    rw [List.map_cons, List.mapM_cons, h, ih]
    rfl

/-- `mapM_map` for `Json.list?`. -/
theorem list?_array (h : ∀ a, read (write a) = some a) (l : List α) :
    list? read (.array (l.map write)) = some l :=
  mapM_map h l

/-- The members of an object, and none of any other value. -/
def memberList (j : Json) : List (String × Json) := j.members?.getD []

def memberNames (j : Json) : List String := j.memberList.map Prod.fst

/-- Members that come in the order of the known names are all read. -/
theorem known?_of_sublist {names : List String} {members : List (String × Json)}
    (hnames : names.Nodup) (h : (members.map Prod.fst).Sublist names) :
    known? names members = some members := by
  have hnodup : (members.map Prod.fst).Nodup := h.nodup hnames
  have hmem : ∀ m ∈ members, m.1 ∈ names := fun m hm => h.subset (List.mem_map_of_mem hm)
  clear h
  induction members with
  | nil => rfl
  | cons m rest ih =>
    obtain ⟨hm, hrest⟩ := List.nodup_cons.1 hnodup
    have hany : (rest.any fun f => f.1 == m.1) = false := by
      rw [List.any_eq_false]
      intro f hf hfm
      exact hm (by rw [← beq_iff_eq.1 hfm]; exact List.mem_map_of_mem hf)
    rw [known?, ih hrest fun m' hm' => hmem m' (List.mem_cons_of_mem m hm')]
    simp [hmem m List.mem_cons_self, hany]

end Json

/-! ### Texts by name -/

/-- Texts by name are written entry by entry and read in the same way. -/
theorem Dict.ofList_mapM {textOf : Json → Option String} (h : ∀ s, textOf (.string s) = some s)
    (d : Dict String String) :
    ((d.entries.map fun e => (e.1, Json.string e.2)).mapM fun m => (textOf m.2).map (m.1, ·)).map
      Dict.ofList = some d := by
  rw [Json.mapM_map (fun e => by rw [h, Option.map_some]), Option.map_some]
  exact congrArg some (Dict.empty_extend d)

/-! ### Steps -/

namespace Step

/-- A table of texts is written with its keys in order, so it is read back as it was. -/
theorem table?_object (d : Dict String String) :
    table? (.object (d.entries.map fun e => (e.1, .string e.2))) = some d :=
  Option.map_eq_bind.symm.trans (Dict.ofList_mapM (fun _ => rfl) d)

/-- Whether something is written in a field. -/
def Says (s : Step) : Field → Prop
  | .text f => (s.getText f).isSome
  | .table f => s.getTable f ≠ ∅
  | .block f => s.getBlock f ≠ []

/-- How a field of a step is written. -/
def member (s : Step) (f : Field) : List (String × Json) :=
  match f with
  | .text g => textMember f.name (s.getText g)
  | .table g => tableMember f.name (s.getTable g)
  | .block g => blockMember f.name (listToJson (s.getBlock g))

/-- A step is written as the members of its fields, in the order of `Field.all`. -/
theorem toJson_eq (s : Step) : s.toJson = .object (Field.all.flatMap s.member) := by
  cases s
  rw [toJson]
  simp [Field.all, member, getText, getTable, getBlock, Field.name]

/-- The two steps have the same in the field `f`. -/
def SameAt (s t : Step) : Field → Prop
  | .text f => s.getText f = t.getText f
  | .table f => s.getTable f = t.getTable f
  | .block f => s.getBlock f = t.getBlock f

/-- A step agrees with itself at each field. -/
theorem SameAt.refl (s : Step) (f : Field) : SameAt s s f := by
  cases f <;> rfl

/-- Agreement at a field carries over. -/
theorem SameAt.trans {s t u : Step} {f : Field} (h : SameAt s t f) (h' : SameAt t u f) :
    SameAt s u f := by
  cases f <;> exact Eq.trans h h'

/-- Steps are equal if they agree at every `Field`. -/
theorem ext_of_sameAt {s t : Step} (h : ∀ f, SameAt s t f) : s = t := by
  have htext : ∀ f, s.getText f = t.getText f := fun f => h (.text f)
  have htable : ∀ f, s.getTable f = t.getTable f := fun f => h (.table f)
  have hblock : ∀ f, s.getBlock f = t.getBlock f := fun f => h (.block f)
  cases s
  cases t
  rw [Step.mk.injEq]
  exact ⟨htext .id, htext .kind, htext .urn, htable .params, htable .exports, htext .condition,
    hblock .onTrue, hblock .onFalse, htext .iterateOn, htext .itemAs, hblock .body⟩

/-- A field is left out if it says nothing. -/
theorem member_eq_nil {s : Step} {f : Field} (h : ¬ s.Says f) :
    s.member f = [] ∧ SameAt s {} f := by
  obtain f | f | f := f
  · have hnone : s.getText f = none := by simpa [Says] using h
    exact ⟨by rw [member, hnone, textMember], by cases f <;> exact hnone⟩
  · have hempty : s.getTable f = ∅ := by simpa [Says] using h
    exact ⟨by rw [member, hempty]; rfl, by cases f <;> exact hempty⟩
  · have hnil : s.getBlock f = [] := by simpa [Says] using h
    exact ⟨by rw [member, hnil]; rfl, by cases f <;> exact hnil⟩

/-- The text that was set is there. -/
theorem getText_setText (s : Step) (text : Option String) (f : TextField) :
    (s.setText text f).getText f = text := by
  cases f <;> rfl

/-- The table that was set is there. -/
theorem getTable_setTable (s : Step) (table : Dict String String) (f : TableField) :
    (s.setTable table f).getTable f = table := by
  cases f <;> rfl

/-- The block that was set is there. -/
theorem getBlock_setBlock (s : Step) (steps : List Step) (f : BlockField) :
    (s.setBlock steps f).getBlock f = steps := by
  cases f <;> rfl

/-- Setting a text leaves the other fields alone. -/
theorem sameAt_setText (s : Step) (text : Option String) {f : TextField} {g : Field}
    (h : g ≠ .text f) : SameAt s (s.setText text f) g := by
  obtain g | g | g := g <;> cases f <;> cases g <;> first | rfl | exact absurd rfl h

/-- Setting a table leaves the other fields alone. -/
theorem sameAt_setTable (s : Step) (table : Dict String String) {f : TableField} {g : Field}
    (h : g ≠ .table f) : SameAt s (s.setTable table f) g := by
  obtain g | g | g := g <;> cases f <;> cases g <;> first | rfl | exact absurd rfl h

/-- Setting a block leaves the other fields alone. -/
theorem sameAt_setBlock (s : Step) (steps : List Step) {f : BlockField} {g : Field}
    (h : g ≠ .block f) : SameAt s (s.setBlock steps f) g := by
  obtain g | g | g := g <;> cases f <;> cases g <;> first | rfl | exact absurd rfl h

/-- A field that says something is written as one member, and that member sets the field to what it
    was and leaves the others as they are. -/
theorem member_eq_singleton {s : Step} {f : Field} (h : s.Says f)
    (hblock : ∀ g, listOfJson? (listToJson (s.getBlock g)) = some (s.getBlock g)) :
    ∃ j, s.member f = [(f.name, j)] ∧ ∀ t, ∃ t', setField? t f j = some t' ∧ SameAt s t' f ∧
      ∀ g ≠ f, SameAt t t' g := by
  obtain f | f | f := f
  · obtain ⟨text, htext⟩ := Option.isSome_iff_exists.1 h
    refine ⟨.string text, by rw [member, htext, textMember], fun t =>
      ⟨t.setText (some text) f, by rw [setField?]; rfl, ?_, fun g => sameAt_setText t _⟩⟩
    exact htext.trans (getText_setText t _ f).symm
  · have hne : ¬ (s.getTable f).isEmpty = true := fun hempty =>
      h (Dict.ext (List.isEmpty_iff.1 hempty))
    refine ⟨_, by rw [member, tableMember, if_neg hne], fun t =>
      ⟨t.setTable (s.getTable f) f, ?_, ?_, fun g => sameAt_setTable t _⟩⟩
    · rw [setField?, table?_object, Option.map_some]
    · exact (getTable_setTable t _ f).symm
  · have hne : ¬ (listToJson (s.getBlock f)).isEmpty = true := fun hempty => by
      cases hsteps : s.getBlock f with
      | nil => exact h hsteps
      | cons =>
        rw [hsteps, listToJson] at hempty
        cases hempty
    refine ⟨_, by rw [member, blockMember, if_neg hne], fun t =>
      ⟨t.setBlock (s.getBlock f) f, ?_, ?_, fun g => sameAt_setBlock t _⟩⟩
    · rw [setField?, block?, hblock, Option.map_some]
    · exact (getBlock_setBlock t _ f).symm

/-- The members of a field have its name. -/
theorem name_of_mem_member {s : Step} {f : Field} {m : String × Json} (h : m ∈ s.member f) :
    m.1 = f.name := by
  obtain f | f | f := f
  · rw [member] at h
    cases hg : s.getText f with
    | none =>
      rw [hg, textMember] at h
      exact absurd h List.not_mem_nil
    | some text =>
      rw [hg, textMember, List.mem_singleton] at h
      exact congrArg Prod.fst h
  · rw [member, tableMember, List.mem_ite_nil_left, List.mem_singleton] at h
    exact congrArg Prod.fst h.2
  · rw [member, blockMember, List.mem_ite_nil_left, List.mem_singleton] at h
    exact congrArg Prod.fst h.2

/-- **Reading some fields.** From the members of different fields these fields are read as they were
    written, and the other fields are left blank. -/
theorem ofMembers?_flatMap {s : Step}
    (hblock : ∀ g, listOfJson? (listToJson (s.getBlock g)) = some (s.getBlock g)) :
    ∀ fields : List Field, fields.Nodup →
      ∃ t, ofMembers? (fields.flatMap s.member) = some t ∧ (∀ f ∈ fields, SameAt s t f) ∧
        ∀ f, f ∉ fields → SameAt {} t f := by
  intro fields hnodup
  induction fields with
  | nil => exact ⟨{}, by rw [List.flatMap_nil, ofMembers?], by simp, fun f _ => .refl _ f⟩
  | cons f rest ih =>
    obtain ⟨hf, hrest⟩ := List.nodup_cons.1 hnodup
    obtain ⟨t, hread, hsame, hblank⟩ := ih hrest
    rw [List.flatMap_cons]
    by_cases hsays : s.Says f
    · obtain ⟨j, hmember, hset⟩ := member_eq_singleton hsays hblock
      obtain ⟨t', hset, hsame', hother⟩ := hset t
      -- No other field has a member of this name.
      have hany : (rest.flatMap s.member).any (fun m => m.1 == f.name) = false := by
        rw [List.any_eq_false]
        intro m hm hname
        obtain ⟨g, hg, hm⟩ := List.mem_flatMap.1 hm
        rw [name_of_mem_member hm, beq_iff_eq] at hname
        exact hf (Field.name_inj.1 hname ▸ hg)
      refine ⟨t', ?_, ?_, ?_⟩
      · rw [hmember, List.singleton_append, ofMembers?, hread, Option.bind_eq_bind,
          Option.bind_some, Field.ofName?_name]
        dsimp only
        rw [hany, if_neg Bool.false_ne_true, hset]
      · rw [List.forall_mem_cons]
        exact ⟨hsame', fun g hg => (hsame g hg).trans (hother g fun h => hf (h ▸ hg))⟩
      · intro g hg
        rw [List.mem_cons, not_or] at hg
        exact (hblank g hg.2).trans (hother g hg.1)
    · obtain ⟨hmember, hdefault⟩ := member_eq_nil hsays
      refine ⟨t, ?_, ?_, ?_⟩
      · rw [hmember, List.nil_append, hread]
      · rw [List.forall_mem_cons]
        exact ⟨hdefault.trans (hblank f hf), hsame⟩
      · exact fun g hg => hblank g fun h => hg (List.mem_cons_of_mem f h)

mutual

/-- A step is read as it was written, with all the steps inside it. -/
theorem ofJson?_toJson : ∀ s : Step, ofJson? s.toJson = some s
  | ⟨id, kind, urn, params, exports, condition, onTrue, onFalse, iterateOn, itemAs, body⟩ => by
    let s : Step :=
      ⟨id, kind, urn, params, exports, condition, onTrue, onFalse, iterateOn, itemAs, body⟩
    have hblock : ∀ f, listOfJson? (listToJson (s.getBlock f)) = some (s.getBlock f) := fun f =>
      match f with
      | .onTrue => listOfJson?_listToJson onTrue
      | .onFalse => listOfJson?_listToJson onFalse
      | .body => listOfJson?_listToJson body
    obtain ⟨t, hread, hsame, -⟩ := ofMembers?_flatMap hblock Field.all (by decide)
    have hsame : s = t := ext_of_sameAt fun f => hsame f f.mem_all
    rw [toJson_eq, ofJson?, hread, ← hsame]

/-- Steps are read as they were written. -/
theorem listOfJson?_listToJson : ∀ steps : List Step, listOfJson? (listToJson steps) = some steps
  | [] => by rw [listToJson, listOfJson?]
  | s :: rest => by
    rw [listToJson, listOfJson?, ofJson?_toJson s, listOfJson?_listToJson rest]
    rfl

end

/-- A field is written if it says something, and left out otherwise. -/
theorem mem_memberNames_toJson {s : Step} {f : Field} :
    f.name ∈ s.toJson.memberNames ↔ s.Says f := by
  rw [toJson_eq, Json.memberNames, Json.memberList, Json.members?, Option.getD_some, List.mem_map]
  constructor
  · rintro ⟨m, hm, hname⟩
    obtain ⟨g, -, hg⟩ := List.mem_flatMap.1 hm
    obtain rfl := Field.name_inj.1 ((name_of_mem_member hg).symm.trans hname)
    refine Classical.byContradiction fun hsays => ?_
    rw [(member_eq_nil hsays).1] at hg
    exact absurd hg List.not_mem_nil
  · intro hsays
    obtain ⟨j, hmember, -⟩ := member_eq_singleton hsays fun g => listOfJson?_listToJson _
    refine ⟨(f.name, j), List.mem_flatMap.2 ⟨f, f.mem_all, ?_⟩, rfl⟩
    rw [hmember]
    exact List.mem_singleton_self _

end Step

/-! ### Issues -/

/-- A severity is read from its text. -/
theorem Severity.ofJson?_text (severity : Severity) :
    Severity.ofJson? (.string severity.text) = some severity := by
  cases severity <;> rfl

/-- Keys are written as texts and positions as numbers, so segments are told apart. -/
theorem Segment.ofJson?_toJson (s : Segment) : Segment.ofJson? s.toJson = some s := by
  cases s <;> rfl

/-- A location is written as the list of its segments. -/
theorem Location.ofJson?_toJson (l : Location) : Location.ofJson? l.toJson = some l := by
  have hsegments := Json.list?_array Segment.ofJson?_toJson l.segments
  have hfields : l.toJson.fields? fieldNames =
      some [("segments", .array (l.segments.map Segment.toJson))] :=
    Json.known?_of_sublist (by decide) (List.Sublist.refl _)
  rw [ofJson?, hfields]
  simp [Json.field?, hsegments]

namespace Issue

/-- An optional member is written once or not at all. -/
theorem sublist_optionalMember (name : String) (text : Option String) :
    ((optionalMember name text).map Prod.fst).Sublist [name] := by
  cases text with
  | none => exact List.nil_sublist _
  | some text => exact List.Sublist.refl _

/-- The members of an issue stand in the order of `Issue.fieldNames`, none of them twice. -/
theorem sublist_fieldNames (i : Issue) : i.toJson.memberNames.Sublist fieldNames := by
  rw [toJson, Json.memberNames, Json.memberList, Json.members?, Option.getD_some, List.map_append,
    List.map_append, List.map_append]
  exact (((List.Sublist.refl ["kind", "severity"]).append
    (sublist_optionalMember "node_id" i.nodeId)).append
      (List.Sublist.refl ["field_path", "message"])).append
        (sublist_optionalMember "reference" i.reference)

/-- Reading an issue undoes writing it, whichever of its optional members are there. -/
theorem ofJson?_toJson (i : Issue) : ofJson? i.toJson = some i := by
  have hfields : i.toJson.allFields? fieldNames = some i.toJson.memberList :=
    Json.known?_of_sublist (by decide) i.sublist_fieldNames
  obtain ⟨kind, severity, nodeId, location, message, reference⟩ := i
  generalize hmembers : (toJson ⟨kind, severity, nodeId, location, message, reference⟩).memberList =
    members at hfields
  have hkind : Json.field? members "kind" none Json.text? = some kind := by
    rw [← hmembers]
    rfl
  have hseverity : Json.field? members "severity" none Severity.ofJson? = some severity := by
    rw [← hmembers]
    exact Severity.ofJson?_text severity
  have hnode : Json.field? members "node_id" (some none) (Json.optional? Json.text?) =
      some nodeId := by
    rw [← hmembers]
    cases nodeId <;> cases reference <;> rfl
  have hlocation : Json.field? members "field_path" none Location.ofJson? = some location := by
    rw [← hmembers]
    cases nodeId <;> exact Location.ofJson?_toJson location
  have hmessage : Json.field? members "message" none Json.text? = some message := by
    rw [← hmembers]
    cases nodeId <;> rfl
  have hreference : Json.field? members "reference" (some none) (Json.optional? Json.text?) =
      some reference := by
    rw [← hmembers]
    cases nodeId <;> cases reference <;> rfl
  rw [ofJson?, hfields, Option.bind_eq_bind, Option.bind_some, hkind, hseverity, hnode, hlocation,
    hmessage, hreference]
  rfl

end Issue

/-! ### Mocks -/

namespace Scenario

/-- A table of texts is read back as it was. -/
theorem texts?_textsToJson (d : Dict String String) : texts? (textsToJson d) = some d :=
  Option.map_eq_bind.symm.trans (Dict.ofList_mapM (fun _ => rfl) d)

/-- Texts are values that a scenario may have. -/
theorem readableMembers_texts (l : List (String × String)) :
    readableMembers (l.map fun e => (e.1, .string e.2)) = true := by
  induction l with
  | nil => rfl
  | cons e rest ih => exact ih

/-- The members of a scenario stand in the order of `Scenario.fieldNames`, none of them twice. -/
theorem sublist_fieldNames (s : Scenario) : s.toJson.memberNames.Sublist fieldNames := by
  have herror : ((if s.error.isEmpty then [] else [("error", Json.string s.error)]).map
      Prod.fst).Sublist ["error"] := by
    split
    · exact List.nil_sublist _
    · exact List.Sublist.refl _
  rw [toJson, Json.memberNames, Json.memberList, Json.members?, Option.getD_some, List.map_append]
  exact (List.Sublist.refl ["input", "outputJson", "outputFields"]).append herror

/-- A written table passes the check that `Scenario.ofJson?` makes of it. -/
theorem readable_textsToJson (d : Dict String String) : readable (textsToJson d) = true := by
  rw [textsToJson, readable]
  exact readableMembers_texts d.entries

/-- Reading a scenario undoes writing it. -/
theorem ofJson?_toJson (s : Scenario) : ofJson? s.toJson = some s := by
  have hmembers : s.toJson.members? = some s.toJson.memberList := rfl
  have hknown : Json.known? fieldNames s.toJson.memberList = some s.toJson.memberList :=
    Json.known?_of_sublist (by decide) s.sublist_fieldNames
  obtain ⟨input, ⟨raw, outputs⟩, error⟩ := s
  rw [ofJson?, hmembers, Option.bind_eq_bind, Option.bind_some, hknown]
  generalize hlist : (toJson ⟨input, ⟨raw, outputs⟩, error⟩).memberList = members
  have hreadable : readableMembers members = true := by
    rw [← hlist, Json.memberList, toJson, Json.members?, Option.getD_some]
    split <;> simp [readableMembers, readable_textsToJson, readable]
  have hinput : Json.field? members "input" (some ∅) texts? = some input := by
    rw [← hlist]
    exact texts?_textsToJson input
  have hraw : Json.field? members "outputJson" (some "") Json.text? = some raw := by
    rw [← hlist]
    rfl
  have houtputs : Json.field? members "outputFields" (some ∅) texts? = some outputs := by
    rw [← hlist]
    exact texts?_textsToJson outputs
  have herror : Json.field? members "error" (some "") Json.text? = some error := by
    rw [← hlist]
    by_cases hempty : error.isEmpty = true
    · rw [String.isEmpty_iff.1 hempty]
      rfl
    · rw [toJson, if_neg hempty]
      rfl
  rw [Option.bind_eq_bind, Option.bind_some, hreadable, hinput, hraw, houtputs, herror]
  rfl

end Scenario

/-- Reading an entry undoes writing it: a urn and its scenarios in order. -/
theorem MockEntry.ofJson?_toJson (e : MockEntry) : MockEntry.ofJson? e.toJson = some e := by
  have hfields : e.toJson.fields? fieldNames = some e.toJson.memberList :=
    Json.known?_of_sublist (by decide) (List.Sublist.refl _)
  have hurn : Json.field? e.toJson.memberList "actionUrn" none Json.text? = some e.urn := rfl
  have hduration : Json.field? e.toJson.memberList "executionDuration" (some 0) Json.natural? =
      some e.duration := rfl
  have hscenarios : Json.field? e.toJson.memberList "scenarios" (some [])
      (Json.list? Scenario.ofJson?) = some e.scenarios :=
    Json.list?_array Scenario.ofJson?_toJson e.scenarios
  rw [ofJson?, hfields, Option.bind_eq_bind, Option.bind_some, hurn, hduration, hscenarios]
  rfl

/-! ### The formats -/

/-- How a document is written. -/
def Step.documentToJson (document : List Step) : Json := .array (listToJson document)

/-- How the entries of a mock are written. -/
def Mock.entriesToJson (entries : List MockEntry) : Json := .array (entries.map MockEntry.toJson)

/-- The formats in which steps, documents, the entries of mocks and issues are kept. -/
structure WireFormats : Prop where
  step : Codec Step.ofJson? Step.toJson
  document : Codec Step.block? Step.documentToJson
  mock : Codec Mock.entriesOfJson? Mock.entriesToJson
  issue : Codec Issue.ofJson? Issue.toJson
  /-- A field of a step is written if it says something, and left out otherwise. -/
  stepMembers : ∀ (s : Step) (f : Step.Field), f.name ∈ s.toJson.memberNames ↔ s.Says f
  /-- The reason why a call fails is left out if there is none. -/
  scenarioError : ∀ s : Scenario, "error" ∈ s.toJson.memberNames ↔ s.error ≠ ""
  /-- The node and the rule of an issue are left out if there are none. -/
  issueOptional : ∀ i : Issue, ("node_id" ∈ i.toJson.memberNames ↔ i.nodeId.isSome) ∧
    ("reference" ∈ i.toJson.memberNames ↔ i.reference.isSome)

/-- **Written and read back.** Steps, documents, entries of mocks and issues are read as they were
    written, and only what says nothing is left out. -/
theorem wireFormats : WireFormats where
  step := .of_undoes Step.ofJson?_toJson
  document := .of_undoes fun document => by
    rw [Step.documentToJson, Step.block?, Step.listOfJson?_listToJson]
  mock := .of_undoes fun entries => Json.list?_array MockEntry.ofJson?_toJson entries
  issue := .of_undoes Issue.ofJson?_toJson
  stepMembers _ _ := Step.mem_memberNames_toJson
  scenarioError s := by
    simp [Json.memberNames, Json.memberList, Json.members?, Scenario.toJson]
  issueOptional i := by
    obtain ⟨kind, severity, nodeId, location, message, reference⟩ := i
    cases nodeId <;> cases reference <;>
      simp [Json.memberNames, Json.memberList, Json.members?, Issue.toJson, Issue.optionalMember]

/-- A number in a table is read as its digits, and these are written as a text. -/
example : (Step.table? (.object [("limit", .ofInt 50)])).map (Step.tableMember "params") =
    some [("params", .object [("limit", .string "50")])] := by
  rfl

end Runbook
