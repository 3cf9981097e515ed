import Runbook.Proofs.Graph.Defects
import Runbook.Proofs.Graph.Strays

namespace Runbook

/-!
# Runbook graphs — documents whose gaps are filled

`IdSource.fill` goes through the steps of a document at all depths and gives an id to each of those
that have none.

* `IdSource.supply` — the ids that a source supplies next;
* `IdSource.writes` — what is written for the ids of steps that follow each other;
* `Step.anonymous` — a step with everything but the ids, its own and those inside it;
* `IdSource.Fills`, `fills_fill` — only the gaps are filled, with consecutive numbers, once and for
  all;
* `IdSource.TellsApart`, `tellsApart_fill` — when the ids of a filled document are told apart.
-/

open Step (visit visitAll executeKind ifKind forKind)

namespace IdSource

/-! ### Gaps -/

/-- An id counts as missing if it is `Blank`. -/
theorem authored?_eq_none_iff {written : Option String} :
    authored? written = none ↔ Blank written := by
  cases written with
  | none => simp [authored?, Blank]
  | some s => by_cases hblank : Text.isBlankText s = true <;> simp [authored?, Blank, hblank]

instance (written : Option String) : Decidable (Blank written) :=
  decidable_of_iff _ authored?_eq_none_iff

/-- An id counts as written if it is not `Blank`. -/
theorem isSome_authored? {written : Option String} :
    (authored? written).isSome = true ↔ ¬ Blank written := by
  rw [← authored?_eq_none_iff, Option.isSome_iff_ne_none]

/-- A missing id is supplied. -/
theorem write_of_blank {written : Option String} (h : Blank written) (ids : IdSource) :
    ids.write written = some ids.take.1 := by
  have hnone := authored?_eq_none_iff.2 h
  rw [write, hnone, if_neg (by simp), name_of_unnamed hnone]

/-- A written id is left as it was, blanks included. -/
theorem write_of_not_blank {written : Option String} (h : ¬ Blank written) (ids : IdSource) :
    ids.write written = written := by
  rw [write, if_pos (isSome_authored?.2 h)]

/-- A missing id costs the source one of its own. -/
theorem name_snd_of_blank {written : Option String} (h : Blank written) (ids : IdSource) :
    (ids.name written).2 = ids.take.2 := by
  rw [name_of_unnamed (authored?_eq_none_iff.2 h)]

/-- A written id costs the source nothing. -/
theorem name_snd_of_not_blank {written : Option String} (h : ¬ Blank written) (ids : IdSource) :
    (ids.name written).2 = ids := by
  obtain ⟨id, hid⟩ := Option.isSome_iff_exists.1 (isSome_authored?.2 h)
  rw [name_of_authored hid]

/-! ### The ids that a source supplies -/

/-- The next `k` ids that a source supplies. -/
def supply (ids : IdSource) (k : Nat) : List String :=
  (List.range k).map fun i => toString ((ids.next.toNat + i) % UInt64.size)

/-- The next ids of a source are the next one and those after it. -/
theorem supply_succ (ids : IdSource) (k : Nat) :
    ids.supply (k + 1) = ids.take.1 :: ids.take.2.supply k := by
  have hlt : ids.next.toNat < UInt64.size := ids.next.toNat_lt
  have hnext : ids.take.2.next.toNat = (ids.next.toNat + 1) % UInt64.size := by
    show (ids.next + 1).toNat = _
    rw [UInt64.toNat_add]
    rfl
  rw [supply, List.range_succ_eq_map, List.map_cons, List.map_map, Nat.add_zero,
    Nat.mod_eq_of_lt hlt, supply, hnext]
  refine congrArg (ids.take.1 :: ·) (List.map_congr_left fun i _ => ?_)
  show toString ((ids.next.toNat + (i + 1)) % UInt64.size) = _
  rw [Nat.mod_add_mod, Nat.add_assoc, Nat.add_comm 1 i]

/-- A source that does not come around supplies consecutive numbers. -/
theorem supply_eq {ids : IdSource} {k : Nat} (h : ids.next.toNat + k ≤ UInt64.size) :
    ids.supply k = (List.range' ids.next.toNat k).map toString := by
  rw [supply, List.range'_eq_map_range, List.map_map]
  refine List.map_congr_left fun i hi => ?_
  have hlt : ids.next.toNat + i < UInt64.size := by
    have := List.mem_range.1 hi
    omega
  rw [Nat.mod_eq_of_lt hlt]
  rfl

/-- No id is supplied twice until the source has come around. -/
theorem nodup_supply_iff {ids : IdSource} {k : Nat} :
    (ids.supply k).Nodup ↔ k ≤ UInt64.size := by
  rw [supply, List.nodup_map_iff_inj_on List.nodup_range]
  simp only [toString_inj, List.mem_range]
  constructor
  · intro h
    by_contra hk
    -- The first id is supplied again after `2 ^ 64` ids.
    have hzero := h 0 (by omega) UInt64.size (by omega) (by rw [Nat.add_mod_right, Nat.add_zero])
    exact absurd hzero (by decide)
  · intro h i hi j hj hij
    unfold UInt64.size at *
    omega

/-- The counter goes on by one for each missing id. -/
theorem next_after (ids : IdSource) (l : List (Option String)) :
    (ids.after l).next = ids.next + UInt64.ofNat (l.countP fun w => Blank w) := by
  induction l generalizing ids with
  | nil => simp [after]
  | cons w rest ih =>
    -- A step draws on the source just if it has no id.
    show ((ids.name w).2.after rest).next = _
    by_cases hw : Blank w
    · rw [ih, name_snd_of_blank hw, List.countP_cons_of_pos (by simpa using hw), UInt64.ofNat_add]
      show ids.next + 1 + _ = _
      ac_rfl
    · rw [ih, name_snd_of_not_blank hw, List.countP_cons_of_neg (by simpa using hw)]

/-- Nothing is drawn for steps that have ids. -/
theorem after_eq_self {l : List (Option String)} (h : ∀ w ∈ l, ¬ Blank w) (ids : IdSource) :
    ids.after l = ids := by
  induction l with
  | nil => rfl
  | cons w rest ih =>
    show (ids.name w).2.after rest = ids
    rw [name_snd_of_not_blank (h w List.mem_cons_self)]
    exact ih fun w hw => h w (List.mem_cons_of_mem _ hw)

/-! ### The ids that are written -/

/-- What is written for the ids of steps that follow each other. -/
def writes (ids : IdSource) : List (Option String) → List (Option String)
  | [] => []
  | w :: rest => ids.write w :: writes (ids.name w).2 rest

/-- `writeAll` writes the ids that `writes` lists, whether or not their steps are visited. -/
theorem map_written_writeAll (ids : IdSource) (l : List Step.Mention) :
    (ids.writeAll l).map Step.Mention.written = ids.writes (l.map Step.Mention.written) := by
  induction l generalizing ids with
  | nil => rfl
  | cons m rest ih => exact congrArg (ids.write m.written :: ·) (ih _)

/-- Ids that were written are kept as they stand. -/
theorem forall₂_writes (ids : IdSource) (l : List (Option String)) :
    List.Forall₂ (fun w w' => ¬ Blank w → w' = w) l (ids.writes l) := by
  induction l generalizing ids with
  | nil => exact .nil
  | cons w rest ih => exact .cons (fun hw => write_of_not_blank hw ids) (ih _)

/-- What is written in the gaps are the ids that the source supplies, in order. -/
theorem filterMap_zip_writes (ids : IdSource) (l : List (Option String)) :
    ((l.zip (ids.writes l)).filterMap fun p => if Blank p.1 then p.2 else none) =
      ids.supply (l.countP fun w => Blank w) := by
  induction l generalizing ids with
  | nil => rfl
  | cons w rest ih =>
    rw [writes, List.zip_cons_cons, List.filterMap_cons]
    by_cases hw : Blank w
    · rw [if_pos hw, write_of_blank hw, List.countP_cons_of_pos (by simpa using hw), supply_succ,
        ih, name_snd_of_blank hw]
    · rw [if_neg hw, List.countP_cons_of_neg (by simpa using hw), ih, name_snd_of_not_blank hw]

/-- Steps have the ids that they are due. -/
theorem map_authored?_writes (ids : IdSource) (l : List (Option String)) :
    (ids.writes l).map authored? = (ids.names l).map some := by
  induction l generalizing ids with
  | nil => rfl
  | cons w rest ih => rw [writes, names, List.map_cons, List.map_cons, authored?_write, ih]

/-- The ids of some steps are the written ones and those that the source supplies. -/
theorem names_perm (ids : IdSource) (l : List (Option String)) :
    (ids.names l).Perm (l.filterMap authored? ++ ids.supply (l.countP fun w => Blank w)) := by
  induction l generalizing ids with
  | nil => exact .nil
  | cons w rest ih =>
    rw [names]
    cases hw : authored? w with
    | none =>
      have hblank : Blank w := authored?_eq_none_iff.1 hw
      rw [name_of_unnamed hw, List.filterMap_cons_none hw,
        List.countP_cons_of_pos (by simpa using hblank), supply_succ]
      -- The id that is drawn comes before the written ids of the steps that follow.
      exact ((ih _).cons _).trans List.perm_middle.symm
    | some id =>
      have hblank : ¬ Blank w := isSome_authored?.1 (by rw [hw]; rfl)
      rw [name_of_authored hw, List.filterMap_cons_some hw,
        List.countP_cons_of_neg (by simpa using hblank)]
      exact (ih _).cons _

end IdSource

/-! ### Documents without their ids -/

namespace Step

mutual

/-- A step without its id and the ids of the steps inside it. -/
def anonymous : Step → Step
  | ⟨_, kind, urn, params, exports, condition, onTrue, onFalse, iterateOn, itemAs, body⟩ =>
    ⟨none, kind, urn, params, exports, condition, anonymousAll onTrue, anonymousAll onFalse,
      iterateOn, itemAs, anonymousAll body⟩

/-- A document without ids. -/
def anonymousAll : List Step → List Step
  | [] => []
  | s :: rest => s.anonymous :: anonymousAll rest

end

mutual

/-- Taking away ids commutes with listing the steps inside a step. -/
theorem subtree_anonymous : ∀ s : Step, s.anonymous.subtree = s.subtree.map anonymous
  | ⟨id, kind, urn, params, exports, condition, onTrue, onFalse, iterateOn, itemAs, body⟩ => by
    rw [anonymous, subtree, subtree, List.map_cons, List.map_append, List.map_append,
      listing_anonymousAll, listing_anonymousAll, listing_anonymousAll, anonymous]

/-- The steps of a document and of the document without ids stand at the same positions. -/
theorem listing_anonymousAll : ∀ steps : List Step,
    listing (anonymousAll steps) = (listing steps).map anonymous
  | [] => rfl
  | s :: rest => by
    rw [anonymousAll, listing, listing, List.map_append, subtree_anonymous, listing_anonymousAll]

end

mutual

/-- `written_mentions` for a single step. -/
theorem written_mentionsOf (visited : Bool) : ∀ s : Step,
    (mentionsOf visited s).map Mention.written = s.subtree.map Step.id
  | ⟨id, kind, urn, params, exports, condition, onTrue, onFalse, iterateOn, itemAs, body⟩ => by
    rw [mentionsOf, subtree, List.map_cons, List.map_cons, List.map_append, List.map_append,
      List.map_append, List.map_append, written_mentions, written_mentions, written_mentions]

/-- All steps of a document are mentioned in the order in which they are listed. -/
theorem written_mentions (visited : Bool) : ∀ steps : List Step,
    (mentions visited steps).map Mention.written = (listing steps).map Step.id
  | [] => rfl
  | s :: rest => by
    rw [mentions, listing, List.map_append, List.map_append, written_mentionsOf, written_mentions]

end

/-- How many steps of a document have no id. -/
def missing (document : List Step) : Nat := (listing document).countP fun s => Blank s.id

/-- The ids that the steps of a document were written with, less the blanks around them. -/
def authoredIds (document : List Step) : List String :=
  (listing document).filterMap fun s => IdSource.authored? s.id

/-- The ids in `filled` of the steps that have none in `document`, in the order of the steps. -/
def suppliedIds (document filled : List Step) : List String :=
  ((listing document).zip (listing filled)).filterMap fun p =>
    if Blank p.1.id then p.2.id else none

/-- `Step.missing` counts the `Blank` ids of all steps. -/
theorem countP_blank (document : List Step) :
    (((listing document).map Step.id).countP fun w => Blank w) = missing document := by
  rw [List.countP_map]
  rfl

/-- `Step.authoredIds` has the written ids of all steps. -/
theorem filterMap_authored? (document : List Step) :
    ((listing document).map Step.id).filterMap IdSource.authored? = authoredIds document := by
  rw [List.filterMap_map]
  rfl

/-- A step that is visited is a step of the document. -/
theorem mem_listing_of_mem_visitAll {document : List Step} {p : Location × Step}
    (h : p ∈ visitAll .root 0 document) : p.2 ∈ listing document :=
  (listing_perm .root 0 document).mem_iff.2 (List.mem_append_left _ (List.mem_map_of_mem h))

end Step

/-! ### Filled documents -/

namespace IdSource

open Step (listing missing suppliedIds authoredIds anonymous anonymousAll)

mutual

/-- `anonymousAll_fill` for a single step. -/
theorem anonymous_fillStep : ∀ (s : Step) (ids : IdSource),
    (ids.fillStep s).1.anonymous = s.anonymous
  | ⟨id, kind, urn, params, exports, condition, onTrue, onFalse, iterateOn, itemAs, body⟩, ids => by
    rw [fillStep_eq, anonymous, anonymous]
    dsimp only
    rw [anonymousAll_fill onTrue, anonymousAll_fill onFalse, anonymousAll_fill body]

/-- Nothing but ids is written. -/
theorem anonymousAll_fill : ∀ (steps : List Step) (ids : IdSource),
    anonymousAll (ids.fill steps).1 = anonymousAll steps
  | [], ids => by rw [fill]
  | s :: rest, ids => by
    rw [fill]
    dsimp only
    rw [anonymousAll, anonymousAll, anonymous_fillStep s, anonymousAll_fill rest]

end

/-- The ids of a filled document are those that `writes` lists, in the order of `listing`. -/
theorem ids_fill (ids : IdSource) (document : List Step) :
    (listing (ids.fill document).1).map Step.id = ids.writes ((listing document).map Step.id) := by
  rw [← Step.written_mentions true, (mentions_fill true document ids).1, map_written_writeAll,
    Step.written_mentions]

/-- What filling leaves of the source. -/
theorem fill_snd (ids : IdSource) (document : List Step) :
    (ids.fill document).2 = ids.after ((listing document).map Step.id) := by
  rw [(mentions_fill true document ids).2, Step.written_mentions]

/-- The ids of a filled document, less the blanks around them. -/
theorem authored?_fill (ids : IdSource) (document : List Step) :
    ((listing (ids.fill document).1).map fun s => authored? s.id) =
      (ids.names ((listing document).map Step.id)).map some := by
  rw [← map_authored?_writes, ← ids_fill, List.map_map]
  rfl

/-- No id is missing in a filled document. -/
theorem named_fill {ids : IdSource} {document : List Step} :
    ∀ s ∈ listing (ids.fill document).1, ¬ Blank s.id := by
  intro s hs
  have hmem : authored? s.id ∈ (ids.names ((listing document).map Step.id)).map some := by
    rw [← authored?_fill]
    exact List.mem_map_of_mem hs
  obtain ⟨id, -, hid⟩ := List.mem_map.1 hmem
  exact isSome_authored?.1 (by rw [← hid]; rfl)

/-- The ids supplied by filling are the next ones of the source. -/
theorem suppliedIds_fill (ids : IdSource) (document : List Step) :
    suppliedIds document (ids.fill document).1 = ids.supply (missing document) := by
  rw [← Step.countP_blank, ← filterMap_zip_writes, ← ids_fill, List.zip_map, List.filterMap_map]
  rfl

end IdSource

namespace Graph

/-- Building draws on the source for the visited steps that have no ids. -/
theorem build_snd (document : List Step) (ids : IdSource) :
    (build document ids).2 = ids.after ((visitAll .root 0 document).map fun p => p.2.id) := by
  rw [build_eq]
  exact (names_chain .root 0 document ⟨ids, [], []⟩).2

/-- Nothing is drawn when all steps of a document have ids, whether or not it can be built. -/
theorem build_snd_eq_self {document : List Step} (h : ∀ s ∈ Step.listing document, ¬ Blank s.id)
    (ids : IdSource) : (build document ids).2 = ids := by
  rw [build_snd]
  refine IdSource.after_eq_self (fun w hw => ?_) ids
  obtain ⟨p, hp, rfl⟩ := List.mem_map.1 hw
  exact h _ (Step.mem_listing_of_mem_visitAll hp)

end Graph

namespace IdSource

open Step (listing missing suppliedIds authoredIds anonymous anonymousAll)

/-- The gaps of a document were filled from the source `ids` and nothing else was done. -/
structure Fills (ids : IdSource) (document filled : List Step) (rest : IdSource) : Prop where
  /-- All steps have ids. -/
  named : ∀ s ∈ listing filled, ¬ Blank s.id
  /-- But for the ids, the document is what it was. -/
  frame : anonymousAll filled = anonymousAll document
  /-- So is each of its steps, at the same position. -/
  fields : (listing filled).map anonymous = (listing document).map anonymous
  /-- A step that has an id keeps it as it stands. -/
  kept : List.Forall₂ (fun s s' => ¬ Blank s.id → s'.id = s.id) (listing document)
    (listing filled)
  /-- The steps that have none get consecutive numbers, in the order of the listing. -/
  supplied : suppliedIds document filled =
    (List.range' ids.next.toNat (missing document)).map toString
  /-- No two of them get the same. -/
  distinct : (suppliedIds document filled).Nodup
  /-- The source goes on after the last of these numbers. -/
  next : rest.next.toNat = ids.next.toNat + missing document
  /-- Filling again changes nothing and draws nothing. -/
  again : ∀ ids' : IdSource, ids'.fill filled = (filled, ids')
  /-- Neither does building, whether or not it succeeds. -/
  undrawn : ∀ ids' : IdSource, (Graph.build filled ids').2 = ids'

/-- **Filling.** If the source does not come around, filling a document gives the ids that are
    missing and does nothing else. -/
theorem fills_fill {document : List Step} {ids : IdSource}
    (h : ids.next.toNat + missing document < UInt64.size) :
    ids.Fills document (ids.fill document).1 (ids.fill document).2 := by
  have hnumbers : suppliedIds document (ids.fill document).1 =
      (List.range' ids.next.toNat (missing document)).map toString := by
    rw [suppliedIds_fill, supply_eq (by omega)]
  constructor
  case named => exact named_fill
  case frame => exact anonymousAll_fill document ids
  case fields =>
    rw [← Step.listing_anonymousAll, anonymousAll_fill, Step.listing_anonymousAll]
  case kept =>
    have hids := forall₂_writes ids ((listing document).map Step.id)
    rwa [← ids_fill, List.forall₂_map_left_iff, List.forall₂_map_right_iff] at hids
  case supplied => exact hnumbers
  case distinct =>
    rw [suppliedIds_fill, nodup_supply_iff]
    omega
  case next =>
    rw [fill_snd, next_after, Step.countP_blank, UInt64.toNat_add, UInt64.toNat_ofNat',
      Nat.add_mod_mod, Nat.mod_eq_of_lt h]
  case again => exact fun ids' => fill_fill ids' document ids
  case undrawn => exact Graph.build_snd_eq_self named_fill

/-- The ids of `strayedSteps` once it is filled: "2" goes to the step in the unused branch, and the
    blanks around an id stay. -/
theorem fills_strayedSteps :
    fresh.next.toNat + missing Graph.strayedSteps < UInt64.size ∧
      fresh.Fills Graph.strayedSteps (fresh.fill Graph.strayedSteps).1 ⟨4⟩ ∧
      (listing (fresh.fill Graph.strayedSteps).1).map Step.id =
        [some "1", some "2", some "3", some " c "] := by
  have hmissing : fresh.next.toNat + missing Graph.strayedSteps < UInt64.size := by
    decide +kernel
  exact ⟨hmissing, fills_fill hmissing, by decide +kernel⟩

end IdSource

/-! ### Repeated ids -/

/-- Of all defects only a repeated id is reported as `duplicate_id`. -/
theorem Defect.kind_eq_duplicate {d : Defect} : d.kind = "duplicate_id" ↔ d = .repeatedId := by
  cases d <;> simp [Defect.kind]

/-- `identify` gives the ids that `IdSource.names` lists. -/
theorem map_id_identify (ids : IdSource) (l : List (Location × Step)) :
    (identify ids l).map Visit.id = ids.names (l.map fun p => p.2.id) := by
  induction l generalizing ids with
  | nil => rfl
  | cons p rest ih => exact congrArg ((ids.name p.2.id).1 :: ·) (ih _)

namespace Graph

/-- No id is found to be repeated if the visited steps have different ids. -/
theorem kind_ne_of_nodup {document : List Step} {ids : IdSource}
    (h : (ids.names ((visitAll .root 0 document).map fun p => p.2.id)).Nodup) :
    ∀ i ∈ (draft document ids).2.found.reverse, i.kind ≠ "duplicate_id" := by
  intro i hi hkind
  rw [found_draft] at hi
  obtain ⟨⟨v, d⟩, hdefect, rfl⟩ := List.mem_map.1 hi
  obtain rfl : d = .repeatedId := Defect.kind_eq_duplicate.1 hkind
  obtain ⟨before, after, hvisited, w, hw, hid⟩ := Visit.mem_allDefects.1 hdefect
  -- The earlier step with the same id would be listed twice.
  rw [← map_id_identify, hvisited, List.map_append, List.nodup_append] at h
  exact h.2.2 w.id (List.mem_map_of_mem hw) v.id List.mem_cons_self hid

/-- `kind_ne_of_nodup` for the errors that `build` answers. -/
theorem kind_ne_of_build {document : List Step} {ids : IdSource} {issues : List Issue}
    (h : (ids.names ((visitAll .root 0 document).map fun p => p.2.id)).Nodup)
    (hbuild : (build document ids).1 = .error issues) : ∀ i ∈ issues, i.kind ≠ "duplicate_id" := by
  rw [build_fst] at hbuild
  split at hbuild
  · obtain rfl := Except.error.inj hbuild
    intro i hi
    have hfiltered := (List.mergeSort_perm _ Issue.precedes).mem_iff.1 hi
    exact kind_ne_of_nodup h i (List.mem_filter.1 hfiltered).1
  · cases hbuild

end Graph

namespace IdSource

open Step (listing missing authoredIds)

/-- If the steps of a document have ids, and different ones, so have those that are visited. -/
theorem nodup_names_visited {document : List Step} (hnamed : ∀ s ∈ listing document, ¬ Blank s.id)
    (h : (authoredIds document).Nodup) (ids : IdSource) :
    (ids.names ((visitAll .root 0 document).map fun p => p.2.id)).Nodup := by
  have hperm := names_perm ids ((visitAll .root 0 document).map fun p => p.2.id)
  have hnone : ((visitAll .root 0 document).map fun p => p.2.id).countP (fun w => Blank w) = 0 := by
    rw [List.countP_eq_zero]
    intro w hw
    obtain ⟨p, hp, rfl⟩ := List.mem_map.1 hw
    simpa using hnamed _ (Step.mem_listing_of_mem_visitAll hp)
  rw [hnone, supply, List.range_zero, List.map_nil, List.append_nil] at hperm
  rw [hperm.nodup_iff]
  -- The visited steps are some of those that are listed.
  have hall := (Step.listing_perm .root 0 document).filterMap fun s => authored? s.id
  have hparts := hall.nodup_iff.1 h
  rw [List.filterMap_append, List.filterMap_map] at hparts
  rw [List.filterMap_map]
  exact (List.nodup_append.1 hparts).1

/-- How the ids of a document that was filled from the source `ids` are told apart. -/
structure TellsApart (ids : IdSource) (document filled : List Step) : Prop where
  /-- All steps have ids. -/
  named : ((listing filled).map fun s => authored? s.id) = (authoredIds filled).map some
  /-- They are the ids of the document and those that the source supplies. -/
  perm : (authoredIds filled).Perm (authoredIds document ++ ids.supply (missing document))
  /-- If the source does not come around, these are consecutive numbers. -/
  numbers : ids.next.toNat + missing document ≤ UInt64.size →
    ids.supply (missing document) = (List.range' ids.next.toNat (missing document)).map toString
  /-- No two steps have the same id just if none of the supplied ids was written in the document and
      the source does not supply one twice. -/
  apart : (authoredIds filled).Nodup ↔
    missing document ≤ UInt64.size ∧ ∀ id ∈ authoredIds document, id ∉ ids.supply (missing document)
  /-- Then building finds no id that is repeated, whatever else it finds. -/
  unrepeated : (authoredIds filled).Nodup → ∀ (ids' : IdSource) (issues : List Issue),
    (Graph.build filled ids').1 = .error issues → ∀ i ∈ issues, i.kind ≠ "duplicate_id"

/-- **Ids of a filled document.** If the ids that were written in a document are different, those of
    the filled document are different as well, unless one was written that is also supplied. -/
theorem tellsApart_fill {document : List Step} (h : (authoredIds document).Nodup) (ids : IdSource) :
    ids.TellsApart document (ids.fill document).1 := by
  have hids := authored?_fill ids document
  -- All ids of the filled document are written in it.
  have hfilled : authoredIds (ids.fill document).1 =
      ids.names ((listing document).map Step.id) := by
    have hmapped : authoredIds (ids.fill document).1 =
        ((listing (ids.fill document).1).map fun s => authored? s.id).filterMap id := by
      rw [List.filterMap_map]
      rfl
    rw [hmapped, hids, List.filterMap_map]
    exact List.filterMap_some
  have hperm : (authoredIds (ids.fill document).1).Perm
      (authoredIds document ++ ids.supply (missing document)) := by
    rw [hfilled, ← Step.countP_blank, ← Step.filterMap_authored?]
    exact names_perm ids _
  constructor
  case named => rw [hids, hfilled]
  case perm => exact hperm
  case numbers => exact supply_eq
  case apart =>
    rw [hperm.nodup_iff, List.nodup_append, nodup_supply_iff]
    constructor
    · rintro ⟨-, hk, hne⟩
      exact ⟨hk, fun id hid hsupplied => hne id hid id hsupplied rfl⟩
    · rintro ⟨hk, hne⟩
      refine ⟨h, hk, fun id hid id' hid' heq => hne id hid (heq ▸ hid')⟩
  case unrepeated =>
    intro hnodup ids' issues hbuild
    exact Graph.kind_ne_of_build (nodup_names_visited named_fill hnodup ids') hbuild

/-- The supplied ids are "1" to "3", and the one that was written is another one. -/
theorem tellsApart_strayedSteps : (authoredIds Graph.strayedSteps).Nodup ∧
    fresh.TellsApart Graph.strayedSteps (fresh.fill Graph.strayedSteps).1 ∧
    authoredIds (fresh.fill Graph.strayedSteps).1 = ["1", "2", "3", "c"] := by
  have hauthored : (authoredIds Graph.strayedSteps).Nodup := by decide +kernel
  exact ⟨hauthored, tellsApart_fill hauthored fresh, by decide +kernel⟩

/-- An action without an id, and one that has the id which the first is supplied with. -/
def numberedSteps : List Step := [.execute "u", { Step.execute "v" with id := some "1" }]

/-- The error that keeps the filled document from being built. -/
def repeatedNumber : Issue :=
  { Issue.error "duplicate_id" ((Location.root.index 1).key "id")
      "node id `1` is used more than once" "node.id.unique" with
    nodeId := some "1" }

/-- One id is written in this document, and two steps have it when it is filled. -/
theorem repeated_numberedSteps : (authoredIds numberedSteps).Nodup ∧
    authoredIds (fresh.fill numberedSteps).1 = ["1", "1"] ∧
    (Graph.build (fresh.fill numberedSteps).1 (fresh.fill numberedSteps).2).1 =
      .error [repeatedNumber] := by
  have hsorted : Issue.sort [repeatedNumber] = [repeatedNumber] :=
    List.mergeSort_singleton repeatedNumber
  refine ⟨by decide +kernel, by decide +kernel, ?_⟩
  rw [← hsorted]
  rfl

end IdSource

end Runbook
