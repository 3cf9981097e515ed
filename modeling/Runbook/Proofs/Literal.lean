import Runbook.AlertData
import Runbook.Condition
import Runbook.Document
import Runbook.Proofs.Codec
import Runbook.Proofs.Decimal
import Runbook.Proofs.Json

namespace Runbook

/-!
# Integers — in documents and in alert data

An entry of a step, a parameter or an export, may be written as a number, and so may a value of an
alert; the number stands for its text.  Alert data keep the digits of every integer of 64 bits.
Documents keep those of the integers with sign and read the greater ones as doubles.

An entry may stand at any depth of a document, with anything around it.  So what must be shown first
is that the rest of the document is read without it.

* `Frames` — a whole is read by reading one part of it, and the part is found in it again;
* `Step.Row.sets`, `Step.Items.frames`, `Members.frames` — fields of a step, steps of a list and
  members of an object are such parts;
* `Step.Place.frames` — and so are the entries at all depths;
* `Step.Place.parseDocument_congr`, `Step.Place.text?_of_has` — documents are read alike if their
  entries are, and what is read of the entry stands at its place;
* `roundedText_ne` — the text of an integer that is rounded has other digits;
* `readsInteger_parse` — what is kept and what is not.
-/

/-! ### Parts of a whole -/

section Frames

variable {α β γ : Type} {whole : Json → Option β} {part : Json → Option α} {back : β → Option α}

/-- A whole is read by reading one part of it, and `back` finds this part in it again; unless the
    whole is unreadable whatever the part is. -/
def Frames (whole : Json → Option β) (part : Json → Option α) (back : β → Option α) : Prop :=
  (∀ j, whole j = none) ∨ ∃ g, (∀ j, whole j = (part j).map g) ∧ ∀ a, back (g a) = some a

namespace Frames

theorem unread (h : ∀ j, whole j = none) : Frames whole part back := .inl h

theorem intro (g : α → β) (h : ∀ j, whole j = (part j).map g) (hback : ∀ a, back (g a) = some a) :
    Frames whole part back := .inr ⟨g, h, hback⟩

/-- A whole stays framed when something is put around it. -/
theorem map {whole' : Json → Option γ} {back' : γ → Option α} (h : Frames whole part back)
    (g : β → γ) (hwhole : ∀ j, whole' j = (whole j).map g) (hback : ∀ b, back' (g b) = back b) :
    Frames whole' part back' := by
  obtain hnone | ⟨g', hg', hback'⟩ := h
  · exact unread fun j => by rw [hwhole, hnone, Option.map_none]
  · exact intro (g ∘ g') (fun j => by rw [hwhole, hg', Option.map_map])
      fun a => by rw [Function.comp_apply, hback, hback']

/-- What is framed by a part is framed by a part of this part. -/
theorem comp {whole : Json → Option γ} {middle : Json → Option β} {back : γ → Option β}
    {back' : β → Option α} {fill : Json → Json} (h : Frames whole middle back)
    (h' : Frames (middle ∘ fill) part back') :
    Frames (whole ∘ fill) part fun c => (back c).bind back' := by
  obtain hnone | ⟨g, hg, hback⟩ := h
  · exact unread fun j => hnone (fill j)
  · refine h'.map g (fun j => hg (fill j)) fun b => ?_
    rw [hback, Option.bind_some]

/-- The whole is told by what is read of the part. -/
theorem same (h : Frames whole part back) {j j' : Json} (hpart : part j = part j') :
    whole j = whole j' := by
  obtain hnone | ⟨g, hg, -⟩ := h
  · rw [hnone, hnone]
  · rw [hg, hg, hpart]

/-- What is read of the part is found in the whole. -/
theorem found (h : Frames whole part back) {j : Json} {b : β} (hwhole : whole j = some b) :
    back b = part j ∧ (part j).isSome := by
  obtain hnone | ⟨g, hg, hback⟩ := h
  · rw [hnone] at hwhole
    cases hwhole
  · rw [hg] at hwhole
    obtain ⟨a, ha, rfl⟩ := Option.map_eq_some_iff.1 hwhole
    rw [ha, hback]
    exact ⟨rfl, rfl⟩

end Frames

/-- The names of members stay as they are when their values are read. -/
theorem map_fst_mapM {read : Json → Option α} :
    ∀ {members : List (String × Json)} {entries : List (String × α)},
      (members.mapM fun m => (read m.2).map (m.1, ·)) = some entries →
        entries.map Prod.fst = members.map Prod.fst
  | [], entries, h => by
    rw [List.mapM_nil] at h
    cases h
    rfl
  | m :: rest, entries, h => by
    rw [List.mapM_cons] at h
    obtain ⟨e, he, h⟩ := Option.bind_eq_some_iff.1 h
    obtain ⟨others, hothers, h⟩ := Option.bind_eq_some_iff.1 h
    obtain ⟨a, -, rfl⟩ := Option.map_eq_some_iff.1 he
    cases h
    rw [List.map_cons, List.map_cons, map_fst_mapM hothers]

theorem Dict.lookupIn_append {k : String} {l l' : List (String × α)}
    (h : k ∉ l.map Prod.fst) : Dict.lookupIn k (l ++ l') = Dict.lookupIn k l' := by
  induction l with
  | nil => rfl
  | cons e rest ih =>
    rw [List.map_cons, List.mem_cons, not_or] at h
    rw [List.cons_append, Dict.lookupIn, if_neg h.1, ih h.2]

/-- The members of an object, all but the last one of a name. -/
structure Members where
  before : List (String × Json)
  name : String
  after : List (String × Json)
  last : ∀ m ∈ after, m.1 ≠ name

def Members.fill (m : Members) (j : Json) : List (String × Json) :=
  m.before ++ (m.name, j) :: m.after

/-- The last member of a name is read under its name. -/
theorem Members.frames (m : Members) (read : Json → Option α) :
    Frames (fun j => ((m.fill j).mapM fun e => (read e.2).map (e.1, ·)).bind fun entries =>
      some (Dict.ofList entries)) read fun d => d.get? m.name := by
  cases hbefore : m.before.mapM fun e => (read e.2).map (e.1, ·) with
  | none => exact .unread fun j => by simp [fill, List.mapM_append, hbefore]
  | some b =>
    cases hafter : m.after.mapM fun e => (read e.2).map (e.1, ·) with
    | none =>
      refine .unread fun j => ?_
      cases hj : read j <;> simp [fill, List.mapM_append, hbefore, hafter, hj]
    | some a =>
      refine .intro (fun v => Dict.ofList (b ++ (m.name, v) :: a)) (fun j => ?_) fun v => ?_
      · cases hj : read j <;> simp [fill, List.mapM_append, hbefore, hafter, hj]
      · have hlast : m.name ∉ a.reverse.map Prod.fst := by
          rw [List.map_reverse, List.mem_reverse, map_fst_mapM hafter]
          intro hmem
          obtain ⟨e, he, hname⟩ := List.mem_map.1 hmem
          exact m.last e he hname
        rw [Dict.get?_ofList, List.reverse_append, List.reverse_cons, List.append_assoc,
          Dict.lookupIn_append hlast, List.singleton_append, Dict.lookupIn, if_pos rfl]

end Frames

namespace Step

/-! ### Fields of a step -/

/-- The value of a field, as a change of the step. -/
def change? (f : Field) (j : Json) : Option (Step → Step) :=
  match f with
  | .text f => (j.optional? Json.text?).map fun v s => s.setText v f
  | .table f => (table? j).map fun v s => s.setTable v f
  | .block f => (block? j).map fun v s => s.setBlock v f

theorem setField?_eq (s : Step) (f : Field) (j : Json) :
    setField? s f j = (change? f j).map fun u => u s := by
  cases f <;> rw [setField?, change?, Option.map_map] <;> rfl

/-- Changes of two fields can be made in either order. -/
theorem change?_comm {f g : Field} (h : f ≠ g) {j k : Json} {u v : Step → Step}
    (hu : change? f j = some u) (hv : change? g k = some v) (s : Step) : v (u s) = u (v s) := by
  obtain f | f | f := f <;> obtain ⟨a, -, rfl⟩ := Option.map_eq_some_iff.1 hu <;>
    obtain g | g | g := g <;> obtain ⟨b, -, rfl⟩ := Option.map_eq_some_iff.1 hv <;>
    cases f <;> cases g <;> first | rfl | exact absurd rfl h

theorem name_of_ofName? {name : String} {f : Field} (h : Field.ofName? name = some f) :
    f.name = name := by
  have hname := List.find?_some h
  exact beq_iff_eq.1 hname

/-- A reader sets the field `f` of some step, unless it reads nothing whatever is there. -/
def Sets (whole : Json → Option Step) (f : Field) : Prop :=
  (∀ j, whole j = none) ∨ ∃ s, ∀ j, whole j = setField? s f j

namespace Sets

variable {whole whole' : Json → Option Step} {f g : Field}

theorem unread (h : ∀ j, whole j = none) : Sets whole f := .inl h

theorem intro (s : Step) (h : ∀ j, whole j = setField? s f j) : Sets whole f := .inr ⟨s, h⟩

theorem congr (h : Sets whole f) (hwhole : ∀ j, whole' j = whole j) : Sets whole' f :=
  (funext hwhole : whole' = whole) ▸ h

/-- Another field may be set afterwards. -/
theorem bind (h : Sets whole f) (hne : f ≠ g) (k : Json)
    (hwhole : ∀ j, whole' j = (whole j).bind fun s => setField? s g k) : Sets whole' f := by
  obtain hnone | ⟨s, hs⟩ := h
  · exact unread fun j => by rw [hwhole, hnone, Option.bind_none]
  cases hv : change? g k with
  | none => exact unread fun j => by simp [hwhole, setField?_eq, hv]
  | some v =>
    refine intro (v s) fun j => ?_
    rw [hwhole, hs, setField?_eq, setField?_eq]
    cases hu : change? f j with
    | none => rfl
    | some u => simp [setField?_eq, hv, change?_comm hne hu hv]

end Sets

/-- A member of a step sets its field, unless the name comes again. -/
theorem ofMembers?_cons (name : String) (k : Json) (rest : List (String × Json)) :
    ofMembers? ((name, k) :: rest) = (ofMembers? rest).bind fun s =>
      (Field.ofName? name).elim (some s) fun g =>
        if rest.any fun m => m.1 == name then none else setField? s g k := by
  rw [ofMembers?]
  cases Field.ofName? name <;> rfl

/-- Among the members of a step, the one of a known name sets its field. -/
theorem sets_ofMembers? (f : Field) (before after : List (String × Json)) :
    Sets (fun j => ofMembers? (before ++ (f.name, j) :: after)) f := by
  induction before with
  | nil =>
    have hread : ∀ j, ofMembers? ([] ++ (f.name, j) :: after) = (ofMembers? after).bind fun s =>
        if after.any fun m => m.1 == f.name then none else setField? s f j := fun j => by
      rw [List.nil_append, ofMembers?_cons, Field.ofName?_name]
      rfl
    cases hafter : ofMembers? after with
    | none => exact .unread fun j => by rw [hread, hafter, Option.bind_none]
    | some s =>
      cases hany : after.any fun m => m.1 == f.name with
      | true => exact .unread fun j => by rw [hread, hafter, Option.bind_some, hany, if_pos rfl]
      | false =>
        refine .intro s fun j => ?_
        rw [hread, hafter, Option.bind_some, hany, if_neg Bool.false_ne_true]
  | cons m before ih =>
    obtain ⟨name, k⟩ := m
    -- Whether the name comes again does not depend on the value.
    have hread : ∀ j, ofMembers? ((name, k) :: before ++ (f.name, j) :: after) =
        (ofMembers? (before ++ (f.name, j) :: after)).bind fun s =>
          (Field.ofName? name).elim (some s) fun g =>
            if before.any (fun m => m.1 == name) || (f.name == name ||
              after.any fun m => m.1 == name) then none else setField? s g k := fun j => by
      rw [List.cons_append, ofMembers?_cons, List.any_append, List.any_cons]
    cases hname : Field.ofName? name with
    | none => exact ih.congr fun j => by rw [hread, hname]; exact Option.bind_fun_some _
    | some g =>
      cases hany : before.any (fun m => m.1 == name) ||
        (f.name == name || after.any fun m => m.1 == name) with
      | true => exact .unread fun j => by rw [hread, hname, hany]; exact Option.bind_fun_none _
      | false =>
        have hne : f ≠ g := by
          rintro rfl
          rw [name_of_ofName? hname, beq_self_eq_true, Bool.true_or, Bool.or_true] at hany
          cases hany
        exact ih.bind hne k fun j => by rw [hread, hname, hany]; rfl

/-- Among the items that stand for the fields of a step, the one at its place sets its field. -/
theorem sets_ofItems? (f : Field) (after : List Json) :
    ∀ (before : List Json) {fields : List Field}, fields.Nodup →
      fields[before.length]? = some f →
        Sets (fun j => ofItems? fields (before ++ j :: after)) f
  | [], g :: fields, _, hf => by
    obtain rfl : g = f := Option.some.inj hf
    have hread : ∀ j, ofItems? (g :: fields) (j :: after) =
        (ofItems? fields after).bind fun s => setField? s g j := fun j => by
      rw [ofItems?]
      rfl
    cases hafter : ofItems? fields after with
    | none => exact .unread fun j => by rw [List.nil_append, hread, hafter, Option.bind_none]
    | some s => exact .intro s fun j => by rw [List.nil_append, hread, hafter, Option.bind_some]
  | k :: before, g :: fields, hnodup, hf => by
    obtain ⟨hg, hrest⟩ := List.nodup_cons.1 hnodup
    rw [List.length_cons, List.getElem?_cons_succ] at hf
    have hne : f ≠ g := by
      rintro rfl
      exact hg (List.mem_of_getElem? hf)
    refine (sets_ofItems? f after before hrest hf).bind hne k fun j => ?_
    rw [List.cons_append, ofItems?]
    rfl

/-- A step of which one field is left open, as an object or as a list of values. -/
inductive Row (f : Field) where
  | object (before after : List (String × Json))
  | array (before after : List Json) (position : Field.all[before.length]? = some f)

/-- The step with a value in this field. -/
def Row.fill {f : Field} : Row f → Json → Json
  | .object before after, j => .object (before ++ (f.name, j) :: after)
  | .array before after _, j => .array (before ++ j :: after)

theorem Row.sets {f : Field} : ∀ row : Row f, Sets (ofJson? ∘ row.fill) f
  | .object before after => (sets_ofMembers? f before after).congr fun j => by
    rw [Function.comp_apply, fill, ofJson?]
  | .array before after position =>
    (sets_ofItems? f after before (by decide) position).congr fun j => by
      rw [Function.comp_apply, fill, ofJson?]

theorem Row.frames_table {f : TableField} (row : Row (.table f)) :
    Frames (ofJson? ∘ row.fill) table? fun s => some (s.getTable f) := by
  obtain hnone | ⟨s, hs⟩ := row.sets
  · exact .unread hnone
  · refine .intro (fun d => s.setTable d f) (fun j => ?_) fun d => ?_
    · rw [hs, setField?]
    · rw [getTable_setTable]

theorem Row.frames_block {f : BlockField} (row : Row (.block f)) :
    Frames (ofJson? ∘ row.fill) block? fun s => some (s.getBlock f) := by
  obtain hnone | ⟨s, hs⟩ := row.sets
  · exact .unread hnone
  · refine .intro (fun steps => s.setBlock steps f) (fun j => ?_) fun steps => ?_
    · rw [hs, setField?]
    · rw [getBlock_setBlock]

/-! ### Places of entries -/

/-- A list of steps, all but one of them. -/
structure Items where
  before : List Json
  after : List Json

def Items.fill (l : Items) (j : Json) : Json := .array (l.before ++ j :: l.after)

/-- A step in a list is read on its own. -/
theorem Items.frames : ∀ l : Items,
    Frames (block? ∘ l.fill) ofJson? fun steps => steps[l.before.length]?
  | ⟨[], after⟩ => by
    have hread : ∀ j, block? (fill ⟨[], after⟩ j) =
        (ofJson? j).bind fun s => (listOfJson? after).map (s :: ·) := by
      intro j
      rw [fill, block?, List.nil_append, listOfJson?]
      cases ofJson? j <;> cases listOfJson? after <;> rfl
    cases hafter : listOfJson? after with
    | none =>
      refine .unread fun j => ?_
      rw [Function.comp_apply, hread, hafter]
      exact Option.bind_fun_none _
    | some steps =>
      refine .intro (· :: steps) (fun j => ?_) fun s => rfl
      rw [Function.comp_apply, hread, hafter, Option.map_eq_bind]
      rfl
  | ⟨k :: before, after⟩ => by
    have hread : ∀ j, block? (fill ⟨k :: before, after⟩ j) =
        (ofJson? k).bind fun s => (block? (fill ⟨before, after⟩ j)).map (s :: ·) := by
      intro j
      rw [fill, fill, block?, block?, List.cons_append, listOfJson?]
      cases ofJson? k <;> cases listOfJson? (before ++ j :: after) <;> rfl
    cases hk : ofJson? k with
    | none => exact .unread fun j => by rw [Function.comp_apply, hread, hk, Option.bind_none]
    | some s =>
      refine (Items.frames ⟨before, after⟩).map (s :: ·) (fun j => ?_) fun steps => ?_
      · rw [Function.comp_apply, hread, hk, Option.bind_some, Function.comp_apply]
      · exact List.getElem?_cons_succ

/-- A place for an entry of a table, in a step or in a step inside it. -/
inductive Slot where
  | entry (f : TableField) (row : Row (.table f)) (members : Members)
  | inner (f : BlockField) (row : Row (.block f)) (items : Items) (slot : Slot)

namespace Slot

/-- The step with an entry at the place. -/
def fill : Slot → Json → Json
  | entry _ row members, j => row.fill (.object (members.fill j))
  | inner _ row items slot, j => row.fill (items.fill (slot.fill j))

/-- The text at the place, in the step that was read. -/
def text? : Slot → Step → Option String
  | entry f _ members, s => (s.getTable f).get? members.name
  | inner f _ items slot, s => (s.getBlock f)[items.before.length]?.bind slot.text?

/-- The entry is read on its own. -/
theorem frames : ∀ slot : Slot, Frames (ofJson? ∘ slot.fill) entryText? slot.text?
  | entry _ row members =>
    have hmembers : Frames (table? ∘ fun j => .object (members.fill j)) entryText?
        fun d => d.get? members.name := members.frames entryText?
    row.frames_table.comp hmembers
  | inner _ row items slot =>
    row.frames_block.comp (items.frames.comp slot.frames)

end Slot

/-- A place for an entry of a table, in a document. -/
structure Place where
  items : Items
  slot : Slot

namespace Place

variable (p : Place)

/-- The document with an entry at the place. -/
def fill (j : Json) : Json := p.items.fill (p.slot.fill j)

/-- The text at the place, in the steps that were read. -/
def text? (steps : List Step) : Option String :=
  steps[p.items.before.length]?.bind p.slot.text?

/-- A text that is read as JSON is a document with the entry `j` at the place. -/
def Has (format : Format) (text : String) (j : Json) : Prop :=
  format.settle text = .json ∧ Json.parse text = some (p.fill j)

variable {p} {format format' : Format} {text text' : String} {j j' : Json}

theorem frames (p : Place) : Frames (block? ∘ p.fill) entryText? p.text? :=
  p.items.frames.comp p.slot.frames

theorem parseDocument_of_has (h : p.Has format text j) :
    parseDocument format text =
      (block? (p.fill j)).elim (.error (unreadable "json")) .ok := by
  unfold parseDocument
  rw [h.1, h.2, Option.bind_some]
  dsimp only
  cases block? (p.fill j) <;> rfl

/-- Documents are read alike if their entries at the place are. -/
theorem parseDocument_congr (h : p.Has format text j) (h' : p.Has format' text' j')
    (hentry : entryText? j = entryText? j') :
    parseDocument format text = parseDocument format' text' := by
  have hsame : block? (p.fill j) = block? (p.fill j') := p.frames.same hentry
  rw [parseDocument_of_has h, parseDocument_of_has h', hsame]

/-- What is read of the entry stands at the place. -/
theorem text?_of_has (h : p.Has format text j) {steps : List Step}
    (hread : parseDocument format text = .ok steps) : p.text? steps = entryText? j := by
  rw [parseDocument_of_has h] at hread
  cases hblock : block? (p.fill j) with
  | none =>
    rw [hblock] at hread
    cases hread
  | some steps' =>
    rw [hblock] at hread
    cases hread
    exact (p.frames.found hblock).1

end Place

end Step

/-! ### Alert data -/

namespace AlertData

/-- The text is an object of values with `j` as the last member of its name. -/
def Has (m : Members) (text : String) (j : Json) : Prop :=
  Json.parse text = some (.object (m.fill j))

variable {m : Members} {text text' : String} {j j' : Json}

theorem frames (m : Members) :
    Frames (ofJson? ∘ fun j => .object (m.fill j)) valueOfJson? fun d => d.get? m.name :=
  m.frames valueOfJson?

theorem parse?_of_has (h : Has m text j) : parse? text = ofJson? (.object (m.fill j)) := by
  rw [parse?, h, Option.bind_some]

theorem parse?_congr (h : Has m text j) (h' : Has m text' j')
    (hvalue : valueOfJson? j = valueOfJson? j') : parse? text = parse? text' := by
  rw [parse?_of_has h, parse?_of_has h']
  exact (frames m).same hvalue

theorem get?_of_has (h : Has m text j) {data : Dict String Value}
    (hread : parse? text = some data) : data.get? m.name = valueOfJson? j := by
  rw [parse?_of_has h] at hread
  exact ((frames m).found hread).1

end AlertData

/-! ### Integers -/

open Decimal (Binary64 Notation)

/-- The text of the double next to an integer between the two powers. -/
def roundedText (n : Int) : String :=
  Notation.plain.write (Binary64.upper (Binary64.divNearest n.toNat 2048))

/-- The integers that are rounded are those from `2 ^ 63` to `2 ^ 64`. -/
theorem exists_upper {n : Int} (hmin : Text.int64Max < n) (hmax : n ≤ Text.uint64Max) :
    ∃ m : Nat, n = m ∧ 2 ^ 63 ≤ m ∧ m < 2 ^ 64 := by
  have hsigned : Text.int64Max = 9223372036854775807 := rfl
  have hunsigned : Text.uint64Max = 18446744073709551615 := rfl
  exact ⟨n.toNat, by omega, by omega, by omega⟩

theorem Decimal.Binary64.divNearest_bounds {n : Nat} (hmin : 2 ^ 63 ≤ n) (hmax : n < 2 ^ 64) :
    2 ^ 52 ≤ divNearest n 2048 ∧ divNearest n 2048 ≤ 2 ^ 53 := by
  rw [divNearest]
  split
  · omega
  split
  · omega
  split <;> omega

/-- The text of a rounded integer that is no multiple of a hundred has other digits. -/
theorem roundedText_ne {n : Int} (hmin : Text.int64Max < n) (hmax : n ≤ Text.uint64Max)
    (hdvd : ¬ (100 : Int) ∣ n) : roundedText n ≠ toString n := by
  obtain ⟨m, rfl, hm, hm'⟩ := exists_upper hmin hmax
  obtain ⟨hlow, hhigh⟩ := Binary64.divNearest_bounds hm hm'
  intro heq
  have hwrite : Notation.plain.write (Binary64.upper (Binary64.divNearest m 2048)) = toString m :=
    heq
  exact hdvd (Int.natCast_dvd_natCast.2 (Notation.dvd_of_write hlow hhigh hwrite))

namespace Step

theorem entryText?_ofInt {n : Int} (h : n ≤ Text.int64Max) :
    entryText? (.ofInt n) = some (toString n) :=
  if_pos h

theorem entryText?_rounded {n : Int} (hmin : Text.int64Max < n) (hmax : n ≤ Text.uint64Max) :
    entryText? (.ofInt n) = some (roundedText n) := by
  obtain ⟨m, rfl, hm, hm'⟩ := exists_upper hmin hmax
  refine (if_neg (Int.not_le.2 hmin)).trans ?_
  rw [Binary64.ofInt_upper hm hm']
  rfl

end Step

/-- How an integer is read, as an entry of a document and as a value of an alert. -/
structure ReadsInteger (document : Format → String → Except Issue (List Step))
    (alert : String → Option (Dict String Value)) (n : Int) : Prop where
  /-- The digits of an integer of 64 bits, signed or unsigned, are its token. -/
  spelled : Text.int64Min ≤ n → n ≤ Text.uint64Max → ∀ rest, Json.EndsNumeral rest →
    Json.Token.Spelled rest (toString n).toList (.number (some (.integer n)))
  /-- Every layout of the tokens of a value is read as this value. -/
  laid : ∀ (j : Json) (text : String), j.Faithful 0 → Json.Token.Laid text.toList j.tokens →
    Json.parse text = some j
  /-- A document with an integer of 64 bits with sign is read as if its digits were in quotes, and
      these stand at the place. -/
  entry : n ≤ Text.int64Max → ∀ (p : Step.Place) (format : Format) (text : String),
    p.Has format text (.ofInt n) →
      (∀ format' text', p.Has format' text' (.string (toString n)) →
        document format text = document format' text') ∧
      ∀ steps, document format text = .ok steps → p.text? steps = some (toString n)
  /-- So are alert data with any integer of 64 bits. -/
  value : ∀ (m : Members) (text : String), AlertData.Has m text (.ofInt n) →
    (∀ text', AlertData.Has m text' (.string (toString n)) → alert text = alert text') ∧
      ∀ data, alert text = some data → data.get? m.name = some (.scalar (toString n))
  /-- An integer with sign is equal to itself, in the document and in the alert. -/
  equal : n ≤ Text.int64Max → ∀ (p : Step.Place) (m : Members) (format : Format)
    (text text' : String), p.Has format text (.ofInt n) → AlertData.Has m text' (.ofInt n) →
      ∀ steps data, document format text = .ok steps → alert text' = some data →
        ∃ l r, p.text? steps = some l ∧ data.get? m.name = some r ∧
          Operator.eq.holds l r.text = .ok true
  /-- Documents with different integers with sign are different. -/
  distinct : n ≤ Text.int64Max → ∀ n' : Int, n' ≤ Text.int64Max → n ≠ n' →
    ∀ (p : Step.Place) (format format' : Format) (text text' : String),
      p.Has format text (.ofInt n) → p.Has format' text' (.ofInt n') →
        ∀ steps, document format text = .ok steps → document format' text' ≠ .ok steps
  distinctValues : ∀ n' : Int, n ≠ n' → ∀ (m : Members) (text text' : String),
    AlertData.Has m text (.ofInt n) → AlertData.Has m text' (.ofInt n') →
      ∀ data, alert text = some data → alert text' ≠ some data
  /-- A greater integer is rounded to a double in a document, but not in alert data. -/
  rounded : Text.int64Max < n → n ≤ Text.uint64Max →
    ∀ (p : Step.Place) (format : Format) (text : String), p.Has format text (.ofInt n) →
      (∀ format' text', p.Has format' text' (.string (roundedText n)) →
        document format text = document format' text') ∧
      ∀ steps, document format text = .ok steps → p.text? steps = some (roundedText n)
  /-- Its digits are lost, unless it is a multiple of a hundred. -/
  lost : Text.int64Max < n → n ≤ Text.uint64Max → ¬ (100 : Int) ∣ n → roundedText n ≠ toString n
  /-- Documents with integers that are rounded alike are not told apart. -/
  alike : Text.int64Max < n → n ≤ Text.uint64Max →
    ∀ n' : Int, Text.int64Max < n' → n' ≤ Text.uint64Max →
      Binary64.divNearest n.toNat 2048 = Binary64.divNearest n'.toNat 2048 →
        ∀ (p : Step.Place) (format format' : Format) (text text' : String),
          p.Has format text (.ofInt n) → p.Has format' text' (.ofInt n') →
            document format text = document format' text'

/-- **Integers.** Documents keep the digits of an integer of 64 bits with sign and round a greater
    one, and alert data keep the digits of every integer of 64 bits. -/
theorem readsInteger_parse (n : Int) : ReadsInteger Step.parseDocument AlertData.parse? n where
  spelled hmin hmax _ := Json.Token.spelled_digits hmin hmax
  laid _ _ hj := Json.parse_of_laid hj
  entry hn p format text h := by
    have hentry := Step.entryText?_ofInt hn
    exact ⟨fun _ _ h' => Step.Place.parseDocument_congr h h' hentry,
      fun _ hread => (Step.Place.text?_of_has h hread).trans hentry⟩
  value m text h :=
    ⟨fun _ h' => AlertData.parse?_congr h h' rfl, fun _ hread => AlertData.get?_of_has h hread⟩
  equal hn p m format text text' h h' steps data hread hread' := by
    refine ⟨toString n, .scalar (toString n), ?_, AlertData.get?_of_has h' hread', ?_⟩
    · exact (Step.Place.text?_of_has h hread).trans (Step.entryText?_ofInt hn)
    · rw [Value.text, Operator.holds.eq_def]
      cases Text.int64? (toString n) <;> simp [Operator.onInts]
  distinct hn n' hn' hne p format format' text text' h h' steps hread hread' := by
    have htext := (Step.Place.text?_of_has h hread).trans (Step.entryText?_ofInt hn)
    have htext' := (Step.Place.text?_of_has h' hread').trans (Step.entryText?_ofInt hn')
    exact hne (Text.toString_int_inj (Option.some.inj (htext.symm.trans htext')))
  distinctValues n' hne m text text' h h' data hread hread' := by
    have hvalue := (AlertData.get?_of_has h hread).symm.trans (AlertData.get?_of_has h' hread')
    exact hne (Text.toString_int_inj (Value.scalar.inj (Option.some.inj hvalue)))
  rounded hmin hmax p format text h := by
    have hentry := Step.entryText?_rounded hmin hmax
    exact ⟨fun _ _ h' => Step.Place.parseDocument_congr h h' hentry,
      fun _ hread => (Step.Place.text?_of_has h hread).trans hentry⟩
  lost hmin hmax hdvd := roundedText_ne hmin hmax hdvd
  alike hmin hmax n' hmin' hmax' hsame p format format' text text' h h' := by
    refine Step.Place.parseDocument_congr h h' ?_
    rw [Step.entryText?_rounded hmin hmax, Step.entryText?_rounded hmin' hmax', roundedText, hsame,
      ← roundedText]

/-! ### An integer that is rounded -/

namespace Step

/-- A document of one step, with its only parameter left open. -/
def parameterPlace : Place :=
  ⟨⟨[], []⟩, .entry .params (.object [("urn", .string "u")] []) ⟨[], "p", [], by simp⟩⟩

theorem block?_parameterPlace (j : Json) : block? (parameterPlace.fill j) =
    (entryText? j).map fun t => [{ urn := some "u", params := Dict.singleton "p" t }] := by
  have hfill : parameterPlace.fill j =
      .array [.object [("urn", .string "u"), ("params", .object [("p", j)])]] := rfl
  have hurn : Field.ofName? "urn" = some (.text .urn) := rfl
  have hparams : Field.ofName? "params" = some (.table .params) := rfl
  rw [hfill, block?, listOfJson?, listOfJson?, ofJson?, ofMembers?, ofMembers?, ofMembers?, hurn,
    hparams]
  cases h : entryText? j with
  | none => simp [setField?, table?, Json.members?, h]
  | some t =>
    simp [setField?, table?, Json.members?, Json.optional?, Json.text?, setText, setTable, h]
    rfl

/-- The document with an integer of 64 bits is written and read. -/
theorem has_parameterPlace {n : Int} (hmin : Text.int64Min ≤ n) (hmax : n ≤ Text.uint64Max) :
    parameterPlace.Has .json (parameterPlace.fill (.ofInt n)).compact (.ofInt n) := by
  refine ⟨rfl, Json.parse_compact ?_⟩
  simp [parameterPlace, Place.fill, Items.fill, Slot.fill, Row.fill, Members.fill, Json.ofInt,
    Json.Faithful, Json.FaithfulItems, Json.FaithfulMembers, Json.maxDepth, hmin, hmax]

end Step

/-- The greatest integer of 64 bits keeps its digits in an alert but not in a document, so the two
    are not equal, and the document is not told from the one with the integer before it. -/
theorem rounded_greatest :
    Step.parseDocument .json (Step.parameterPlace.fill (.ofInt 18446744073709551615)).compact =
        .ok [{ urn := some "u", params := Dict.singleton "p" "18446744073709552000" }] ∧
      AlertData.parse? (Json.object [("p", .ofInt 18446744073709551615)]).compact =
        some (Dict.singleton "p" (.scalar "18446744073709551615")) ∧
      Operator.eq.holds "18446744073709552000" "18446744073709551615" = .ok false ∧
      Step.parseDocument .json (Step.parameterPlace.fill (.ofInt 18446744073709551614)).compact =
        Step.parseDocument .json
          (Step.parameterPlace.fill (.ofInt 18446744073709551615)).compact := by
  have hgreatest := Step.has_parameterPlace (n := 18446744073709551615) (by decide) (by decide)
  have hbefore := Step.has_parameterPlace (n := 18446744073709551614) (by decide) (by decide)
  have hentry : Step.entryText? (.ofInt 18446744073709551615) = some "18446744073709552000" := by
    decide +kernel
  refine ⟨?_, by decide +kernel, by decide, ?_⟩
  · rw [Step.Place.parseDocument_of_has hgreatest, Step.block?_parameterPlace, hentry]
    rfl
  · refine Step.Place.parseDocument_congr hbefore hgreatest ?_
    rw [hentry]
    decide +kernel

end Runbook
