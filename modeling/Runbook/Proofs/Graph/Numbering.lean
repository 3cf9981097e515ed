import Runbook.Proofs.Run.Reported

namespace Runbook

/-!
# Runbook graphs — the ids of a document and of its graph

Steps without an id are numbered twice: `IdSource.fill` gives ids to all steps of a document, and
building gives ids to the steps that it visits.  Both go through the document in the same order, but
filling also comes to the lists of steps that the kind of a step makes no use of.

* `IdSource.names` — the ids of steps that follow each other, supplied where none is written;
* `Step.mentions` — all steps of a document in order, as far as ids are concerned;
* `mentions_fill` — filling a document gives ids to its mentions, one after the other;
* `names_chain` — building gives the names of the visited steps to the nodes;
* `Step.Unpadded`, `Step.InStep` — no id is padded with blanks, and no id is spent on a step that is
  not visited before the visited steps have theirs;
* `names_fill` — these two are just what it takes for the ids to agree.
-/

open Step (visit visitAll visit_eq executeKind ifKind forKind)

/-! ### Supplied ids -/

/-- The digits of a number are not blank. -/
theorem Text.isBlank_of_mem_toString {n : Nat} {c : Char} (h : c ∈ (toString n).toList) :
    isBlank c = false := by
  rw [Nat.toString_eq_repr, Nat.repr_eq_ofList_toDigits, String.toList_ofList] at h
  have hdigit := Nat.isDigit_of_mem_toDigits (by decide) (by decide) h
  simp only [Char.isDigit, Bool.and_eq_true, decide_eq_true_eq, UInt32.le_iff_toNat_le] at hdigit
  have hlo : 48 ≤ c.toNat := hdigit.1
  have hhi : c.toNat ≤ 57 := hdigit.2
  simp only [isBlank, blankRanges, List.any_cons, List.any_nil, Bool.or_eq_false_iff,
    Bool.and_eq_false_iff, decide_eq_false_iff_not, Nat.not_le, and_true]
  omega

namespace IdSource

/-- A supplied id counts as written, as it stands. -/
theorem authored?_toString (n : Nat) : authored? (some (toString n)) = some (toString n) := by
  have hcs : ∀ c ∈ (toString n).toList, Text.isBlank c = false := fun c =>
    Text.isBlank_of_mem_toString
  have hblank : Text.isBlankText (toString n) = false := by
    have hne : (toString n).toList ≠ [] := by
      rw [Nat.toString_eq_repr, Nat.repr_eq_ofList_toDigits, String.toList_ofList]
      exact Nat.toDigits_ne_nil
    obtain ⟨c, hc⟩ := List.exists_mem_of_ne_nil _ hne
    exact List.all_eq_false.2 ⟨c, hc, by simp [hcs c hc]⟩
  rw [authored?, hblank, if_neg (by simp), Text.trim_eq_self hcs]

/-- Different counters give different ids. -/
theorem toString_inj {n k : Nat} : toString n = toString k ↔ n = k := by
  refine ⟨fun h => ?_, congrArg toString⟩
  -- The digits of a number read as the number again.
  have hread : ∀ n : Nat, Nat.ofDigitChars 10 (toString n).toList 0 = n := fun n => by
    rw [Nat.toString_eq_repr, Nat.repr_eq_ofList_toDigits, String.toList_ofList,
      Nat.ofDigitChars_ten_toDigits]
  rw [← hread n, ← hread k, h]

/-- A written id has been trimmed once and for all. -/
theorem authored?_of_authored? {written : Option String} {id : String}
    (h : authored? written = some id) : authored? (some id) = some id := by
  cases written with
  | none => cases h
  | some s =>
    rw [authored?] at h
    by_cases hblank : Text.isBlankText s
    · rw [if_pos hblank] at h
      cases h
    · rw [if_neg hblank] at h
      obtain rfl := Option.some.inj h
      rw [authored?, Text.isBlankText_trim, if_neg hblank, Text.trim_trim]

/-- The id of a step: its own, less the blanks around it, or the next one supplied. -/
def name (ids : IdSource) (written : Option String) : String × IdSource :=
  match authored? written with
  | some id => (id, ids)
  | none => ids.take

/-- A written id is kept and costs the source nothing. -/
theorem name_of_authored {written : Option String} {id : String}
    (h : authored? written = some id) (ids : IdSource) : ids.name written = (id, ids) := by
  rw [name, h]

/-- Without a written id the source is drawn on. -/
theorem name_of_unnamed {written : Option String} (h : authored? written = none)
    (ids : IdSource) : ids.name written = ids.take := by
  rw [name, h]

/-- The source after ids were supplied for some steps. -/
def after (ids : IdSource) (written : List (Option String)) : IdSource :=
  written.foldl (fun ids w => (ids.name w).2) ids

/-- The ids of steps that follow each other. -/
def names (ids : IdSource) : List (Option String) → List String
  | [] => []
  | w :: rest => (ids.name w).1 :: names (ids.name w).2 rest

/-- The source after some steps and more steps. -/
@[simp]
theorem after_append (ids : IdSource) (l l' : List (Option String)) :
    ids.after (l ++ l') = (ids.after l).after l' :=
  List.foldl_append

/-- Later steps are named by what the earlier ones leave of the source. -/
@[simp]
theorem names_append (ids : IdSource) (l l' : List (Option String)) :
    ids.names (l ++ l') = ids.names l ++ (ids.after l).names l' := by
  induction l generalizing ids with
  | nil => rfl
  | cons w rest ih =>
    show (ids.name w).1 :: names _ (rest ++ l') = _
    rw [ih]
    rfl

/-- Every step gets one id. -/
theorem length_names (ids : IdSource) (l : List (Option String)) :
    (ids.names l).length = l.length := by
  induction l generalizing ids with
  | nil => rfl
  | cons w rest ih => exact congrArg Nat.succ (ih _)

/-- Ids count as written, as they stand. -/
theorem authored?_of_mem_names {ids : IdSource} {l : List (Option String)} {id : String}
    (h : id ∈ ids.names l) : authored? (some id) = some id := by
  induction l generalizing ids with
  | nil => exact absurd h List.not_mem_nil
  | cons w rest ih =>
    rcases List.mem_cons.1 h with rfl | h
    · cases hw : authored? w with
      | some id => rw [name_of_authored hw, authored?_of_authored? hw]
      | none => rw [name_of_unnamed hw, take, authored?_toString]
    · exact ih h

/-- What is written for the id of a step when a document is filled. -/
def write (ids : IdSource) (written : Option String) : Option String :=
  if (authored? written).isSome then written else some (ids.name written).1

/-- A step that was filled has the id that it is due. -/
theorem authored?_write (ids : IdSource) (written : Option String) :
    authored? (ids.write written) = some (ids.name written).1 := by
  cases h : authored? written with
  | some id => rw [write, h, name_of_authored h]; exact h
  | none => rw [write, h, name_of_unnamed h]; exact authored?_toString _

end IdSource

/-! ### Mentions of steps -/

namespace Step

/-- A step, as far as ids are concerned. -/
structure Mention where
  /-- The id it was written with. -/
  written : Option String
  /-- Whether it becomes a node. -/
  visited : Bool

mutual

/-- A step and all steps inside it in the order in which they are written, of which only those are
    visited that the kinds of the steps around them make use of. -/
def mentionsOf (visited : Bool) : Step → List Mention
  | ⟨id, kind, _, _, _, _, onTrue, onFalse, _, _, body⟩ =>
    ⟨id, visited⟩ ::
      (mentions (visited && kind.getD executeKind == ifKind) onTrue ++
        mentions (visited && kind.getD executeKind == ifKind) onFalse ++
        mentions (visited && kind.getD executeKind == forKind) body)

def mentions (visited : Bool) : List Step → List Mention
  | [] => []
  | s :: rest => mentionsOf visited s ++ mentions visited rest

end

/-- The ids that the visited steps were written with. -/
def visitedIds (l : List Mention) : List (Option String) :=
  (l.filter Mention.visited).map Mention.written

/-- A visited step adds what is written as its id. -/
theorem visitedIds_visited (written : Option String) (rest : List Mention) :
    visitedIds (⟨written, true⟩ :: rest) = written :: visitedIds rest := rfl

/-- A step that is not visited adds nothing. -/
theorem visitedIds_unvisited (written : Option String) (rest : List Mention) :
    visitedIds (⟨written, false⟩ :: rest) = visitedIds rest := rfl

/-- The visited steps of two stretches of `Mention`s. -/
@[simp]
theorem visitedIds_append (l l' : List Mention) :
    visitedIds (l ++ l') = visitedIds l ++ visitedIds l' := by
  rw [visitedIds, List.filter_append, List.map_append]
  rfl

mutual

/-- Nothing is visited inside a step that is not. -/
theorem visitedIds_mentionsOf_false : ∀ s : Step, visitedIds (mentionsOf false s) = []
  | ⟨id, kind, _, _, _, _, onTrue, onFalse, _, _, body⟩ => by
    rw [mentionsOf, Bool.false_and, Bool.false_and]
    show visitedIds (_ ++ _) = []
    rw [visitedIds_append, visitedIds_append, visitedIds_mentions_false, visitedIds_mentions_false,
      visitedIds_mentions_false]
    rfl

/-- `visitedIds_mentionsOf_false` for steps in a row. -/
@[simp]
theorem visitedIds_mentions_false : ∀ steps : List Step, visitedIds (mentions false steps) = []
  | [] => rfl
  | s :: rest => by
    rw [mentions, visitedIds_append, visitedIds_mentionsOf_false, visitedIds_mentions_false]
    rfl

end

mutual

/-- The visited steps of a document are those that are visited when its graph is built. -/
theorem visitedIds_mentionsOf (place : Location) : ∀ s : Step,
    visitedIds (mentionsOf true s) = (visit place s).map fun p => p.2.id
  | ⟨id, kind, urn, params, exports, condition, onTrue, onFalse, iterateOn, itemAs, body⟩ => by
    rw [mentionsOf, visit]
    show id :: visitedIds (_ ++ _) = id :: List.map _ _
    rw [visitedIds_append, visitedIds_append]
    by_cases hif : kind.getD executeKind = ifKind
    · rw [if_pos hif, hif, List.map_append, ← visitedIds_mentions (place.key "onTrue") 0 onTrue,
        ← visitedIds_mentions (place.key "onFalse") 0 onFalse]
      have hfor : (ifKind == forKind) = false := by decide
      simp [hfor]
    · rw [if_neg hif]
      by_cases hfor : kind.getD executeKind = forKind
      · rw [if_pos hfor, hfor, ← visitedIds_mentions (place.key "body") 0 body]
        have hif : (forKind == ifKind) = false := by decide
        simp [hif]
      · rw [if_neg hfor, beq_eq_false_iff_ne.2 hif, beq_eq_false_iff_ne.2 hfor]
        simp

/-- `visitedIds_mentionsOf` for steps in a row, whatever the place of the first. -/
theorem visitedIds_mentions (place : Location) : ∀ (position : Nat) (steps : List Step),
    visitedIds (mentions true steps) = (visitAll place position steps).map fun p => p.2.id
  | _, [] => rfl
  | position, s :: rest => by
    rw [mentions, visitAll, visitedIds_append, List.map_append,
      visitedIds_mentionsOf (place.index position) s, visitedIds_mentions place (position + 1) rest]

end

end Step

/-! ### Filled documents -/

namespace IdSource

/-- Mentions with the ids that they are given when a document is filled. -/
def writeAll (ids : IdSource) : List Step.Mention → List Step.Mention
  | [] => []
  | m :: rest => ⟨ids.write m.written, m.visited⟩ :: writeAll (ids.name m.written).2 rest

/-- Ids are written along a stretch of `Mention`s, visited or not. -/
theorem writeAll_append (ids : IdSource) (l l' : List Step.Mention) :
    ids.writeAll (l ++ l') =
      ids.writeAll l ++ (ids.after (l.map Step.Mention.written)).writeAll l' := by
  induction l generalizing ids with
  | nil => rfl
  | cons m rest ih =>
    show _ :: writeAll _ (rest ++ l') = _
    rw [ih]
    rfl

/-- `IdSource.fillStep` of a step as one expression: its id first, then its three blocks in
    order. -/
theorem fillStep_eq (ids : IdSource) (s : Step) :
    ids.fillStep s =
      let yes := (ids.name s.id).2.fill s.onTrue
      let no := yes.2.fill s.onFalse
      let body := no.2.fill s.body
      ({ s with id := ids.write s.id, onTrue := yes.1, onFalse := no.1, body := body.1 },
        body.2) := by
  obtain ⟨id⟩ := s
  rw [fillStep]
  cases h : authored? id with
  | some a => simp [write, h, name_of_authored h]
  | none => simp [write, h, name_of_unnamed h]

open Step (mentions mentionsOf)

mutual

/-- `mentions_fill` for a single step. -/
theorem mentions_fillStep (visited : Bool) : ∀ (s : Step) (ids : IdSource),
    mentionsOf visited (ids.fillStep s).1 = ids.writeAll (mentionsOf visited s) ∧
      (ids.fillStep s).2 = ids.after ((mentionsOf visited s).map Step.Mention.written)
  | ⟨id, kind, urn, params, exports, condition, onTrue, onFalse, iterateOn, itemAs, body⟩, ids => by
    rw [fillStep_eq, mentionsOf]
    dsimp only
    have hyes := mentions_fill (visited && kind.getD executeKind == ifKind) onTrue (ids.name id).2
    generalize (ids.name id).2.fill onTrue = yes at *
    have hno := mentions_fill (visited && kind.getD executeKind == ifKind) onFalse yes.2
    generalize yes.2.fill onFalse = no at *
    have hbody := mentions_fill (visited && kind.getD executeKind == forKind) body no.2
    generalize no.2.fill body = inner at *
    -- The source goes through the three lists one after the other.
    rw [mentionsOf, writeAll, writeAll_append, writeAll_append, hyes.1, hno.1, hbody.1, hbody.2,
      List.map_cons, List.map_append, List.map_append, after_append, hno.2, hyes.2]
    refine ⟨rfl, ?_⟩
    show _ = (ids.name id).2.after (List.map _ (_ ++ _) ++ List.map _ _)
    rw [List.map_append, after_append, after_append]

/-- **Filling.** Ids are given to all steps of a document, one after the other. -/
theorem mentions_fill (visited : Bool) : ∀ (steps : List Step) (ids : IdSource),
    mentions visited (ids.fill steps).1 = ids.writeAll (mentions visited steps) ∧
      (ids.fill steps).2 = ids.after ((mentions visited steps).map Step.Mention.written)
  | [], ids => by
    rw [fill]
    exact ⟨rfl, rfl⟩
  | s :: rest, ids => by
    have hstep := mentions_fillStep visited s ids
    have hrest := mentions_fill visited rest (ids.fillStep s).2
    rw [fill]
    dsimp only
    rw [mentions, mentions, hstep.1, hrest.1, hrest.2, writeAll_append, List.map_append,
      after_append, hstep.2]
    exact ⟨rfl, rfl⟩

end

end IdSource

/-! ### Building draws on the source for visited steps only -/

namespace Graph

open IdSource (authored? name_of_authored name_of_unnamed)
open Step (mentions mentionsOf visitedIds visitedIds_append visitedIds_mentions_false)

/-- A part of building that does the same whatever ids the source would supply. -/
def Blind {α : Type} (r : Building (List String) α) : Prop :=
  ∀ (d : Sketch) (ids : IdSource),
    r.run { d with ids := ids } = ((r.run d).1, { (r.run d).2 with ids := ids })

namespace Blind

variable {α β : Type}

/-- Such a part does not draw on the source. -/
theorem ids_eq {r : Building (List String) α} (h : Blind r) (d : Sketch) :
    (r.run d).2.ids = d.ids :=
  congrArg (fun ended => ended.2.ids) (h d d.ids)

/-- A part that does nothing does not draw on the source. -/
theorem pure (a : α) : Blind (Pure.pure a) := fun _ _ => rfl

/-- Reporting does not draw on the source. -/
theorem report (id : String) (issue : Issue) : Blind (report id issue) := fun _ _ => rfl

/-- Two `Blind` parts in a row, the second of which may depend on the answer of the first. -/
theorem bind {r : Building (List String) α} {f : α → Building (List String) β} (h : Blind r)
    (hf : ∀ a, Blind (f a)) : Blind (r >>= f) := fun d ids => by
  rw [run_bind, run_bind, h d ids]
  exact hf _ _ ids

/-- A `Blind` part for each entry of a list. -/
theorem forM {f : α → Building (List String) Unit} (h : ∀ a, Blind (f a)) (l : List α) :
    Blind (l.forM f) := by
  induction l with
  | nil => exact .pure _
  | cons a l ih => exact (h a).bind fun _ => ih

/-- Claiming an id looks at the ids that were seen, and not at the source. -/
theorem claimId (id : String) (location : Location) : Blind (claimId id location) := by
  intro d ids
  rw [run_claimId, run_claimId]
  dsimp only
  split <;> rfl

/-- `Graph.checkReference` is `Blind`. -/
theorem checkReference (id : String) (location : Location) (token : String) :
    Blind (checkReference id location token) := by
  rw [Graph.checkReference]
  split
  · exact .report _ _
  · exact .pure _

/-- `Graph.checkAction` is `Blind`. -/
theorem checkAction (id : String) (location : Location) (urn : String)
    (params : Dict String String) : Blind (checkAction id location urn params) := by
  have hparams : Blind (params.entries.forM fun p =>
      Graph.checkReference id ((location.key "params").key p.1) p.2) :=
    .forM (fun _ => .checkReference _ _ _) _
  rw [Graph.checkAction]
  split
  · exact .bind (.report _ _) fun _ => hparams
  · exact hparams

/-- `Graph.checkCondition` is `Blind`. -/
theorem checkCondition (id : String) (location : Location) (condition : String) :
    Blind (checkCondition id location condition) := by
  unfold Graph.checkCondition
  split
  · exact .report _ _
  · split
    · exact .forM (fun _ => .checkReference _ _ _) _
    · exact .report _ _

/-- `Graph.checkElements` is `Blind`. -/
theorem checkElements (id : String) (location : Location) (elements : String) :
    Blind (checkElements id location elements) := by
  unfold Graph.checkElements
  split
  · exact .report _ _
  · split
    · exact .checkReference _ _ _
    · exact .report _ _

/-- `Graph.reportKind` is `Blind`. -/
theorem reportKind (id : String) (location : Location) (kind : String) :
    Blind (reportKind id location kind) :=
  .report _ _

end Blind

/-- `Graph.chooseId` is `IdSource.name`: the only part of building that draws on the source. -/
theorem run_chooseId (written : Option String) (d : Sketch) :
    (chooseId written).run d =
      ((d.ids.name written).1, { d with ids := (d.ids.name written).2 }) := by
  rw [chooseId]
  cases h : authored? written with
  | some id => rw [name_of_authored h]; rfl
  | none => rw [name_of_unnamed h]; rfl

mutual

/-- `names_chain` for a single step. -/
theorem names_node (location : Location) : ∀ (s : Step) (d : Sketch),
    ((node location s).run d).1.subtree.map Node.id =
        d.ids.names ((visit location s).map fun p => p.2.id) ∧
      ((node location s).run d).2.ids = d.ids.after ((visit location s).map fun p => p.2.id)
  | ⟨id, kind, urn, params, exports, condition, onTrue, onFalse, iterateOn, itemAs, body⟩, d => by
    rw [node, run_bind, run_bind, run_chooseId, visit]
    have hclaim := (Blind.claimId (d.ids.name id).1 location).ids_eq
      { d with ids := (d.ids.name id).2 }
    dsimp only at hclaim ⊢
    generalize ((claimId (d.ids.name id).1 location).run { d with ids := (d.ids.name id).2 }).2 = d₁
      at *
    by_cases hexec : kind.getD executeKind = executeKind
    · rw [if_pos hexec, hexec, if_neg (by decide), if_neg (by decide), run_bind]
      have hcheck := (Blind.checkAction (d.ids.name id).1 location (trimmed urn) params).ids_eq d₁
      exact ⟨rfl, hcheck.trans hclaim⟩
    rw [if_neg hexec]
    by_cases hif : kind.getD executeKind = ifKind
    · rw [if_pos hif, if_pos hif, run_bind, run_bind, run_bind]
      have hcheck := (Blind.checkCondition (d.ids.name id).1 location (condition.getD "")).ids_eq d₁
      generalize
        ((checkCondition (d.ids.name id).1 location (condition.getD "")).run d₁).2 = d₂ at *
      have hyes := names_chain (location.key "onTrue") 0 onTrue d₂
      generalize (chain (location.key "onTrue") 0 onTrue).run d₂ = yes at *
      have hno := names_chain (location.key "onFalse") 0 onFalse yes.2
      generalize (chain (location.key "onFalse") 0 onFalse).run yes.2 = no at *
      -- The two branches draw on what the check of the condition has left.
      rw [hyes.2, hcheck, hclaim] at hno
      rw [hcheck, hclaim] at hyes
      show List.map Node.id (_ :: (Node.listing yes.1 ++ Node.listing no.1)) = _ ∧ no.2.ids = _
      rw [List.map_cons, List.map_append, List.map_cons, List.map_append, hyes.1, hno.1, hno.2,
        ← IdSource.names_append]
      exact ⟨rfl, (IdSource.after_append _ _ _).symm⟩
    rw [if_neg hif, if_neg hif]
    by_cases hfor : kind.getD executeKind = forKind
    · rw [if_pos hfor, if_pos hfor, run_bind, run_bind]
      have hcheck := (Blind.checkElements (d.ids.name id).1 location (trimmed iterateOn)).ids_eq d₁
      generalize ((checkElements (d.ids.name id).1 location (trimmed iterateOn)).run d₁).2 = d₂ at *
      have hbody := names_chain (location.key "body") 0 body d₂
      generalize (chain (location.key "body") 0 body).run d₂ = nodes at *
      rw [hcheck, hclaim] at hbody
      show List.map Node.id (_ :: Node.listing nodes.1) = _ ∧ nodes.2.ids = _
      rw [List.map_cons, hbody.1, hbody.2]
      exact ⟨rfl, rfl⟩
    · rw [if_neg hfor, if_neg hfor, run_bind]
      have hreport :=
        (Blind.reportKind (d.ids.name id).1 location (kind.getD executeKind)).ids_eq d₁
      exact ⟨rfl, hreport.trans hclaim⟩

/-- **Building.** Nodes get the ids of the visited steps, one after the other. -/
theorem names_chain (location : Location) : ∀ (position : Nat) (steps : List Step) (d : Sketch),
    (Node.listing ((chain location position steps).run d).1).map Node.id =
        d.ids.names ((visitAll location position steps).map fun p => p.2.id) ∧
      ((chain location position steps).run d).2.ids =
        d.ids.after ((visitAll location position steps).map fun p => p.2.id)
  | position, [], d => by
    rw [chain]
    exact ⟨rfl, rfl⟩
  | position, s :: rest, d => by
    have hnode := names_node (location.index position) s d
    have hrest := names_chain location (position + 1) rest
      ((node (location.index position) s).run d).2
    rw [hnode.2] at hrest
    rw [chain, run_bind, run_bind, visitAll, List.map_append, IdSource.names_append,
      IdSource.after_append, ← hnode.1, ← hrest.1]
    show List.map Node.id (Node.listing (_ :: _)) = _ ∧ _
    rw [Node.listing, List.map_append]
    exact ⟨rfl, hrest.2⟩

end

end Graph

/-! ### Where ids agree -/

namespace Step

open IdSource (authored?)

/-- A step that is supplied with an id though it is not visited. -/
def Mention.stray (m : Mention) : Bool := !m.visited && (authored? m.written).isNone

/-- Before a visited step is supplied with an id, no ids are spent on stray steps, unless they take
    the source around.  `spent` of them were before. -/
def Level (spent : Nat) (l : List Mention) : Prop :=
  ∀ (before after : List Mention) (m : Mention), l = before ++ m :: after → m.visited = true →
    authored? m.written = none → UInt64.size ∣ spent + before.countP Mention.stray

/-- No visited step is left. -/
theorem level_nil (spent : Nat) : Level spent [] :=
  fun before after m h => absurd h (by simp)

/-- A visited step without an id asks that the counter has come round, and a stray one moves it
    on. -/
theorem level_cons {spent : Nat} {m : Mention} {rest : List Mention} :
    Level spent (m :: rest) ↔
      (m.visited = true → authored? m.written = none → UInt64.size ∣ spent) ∧
        Level (spent + if m.stray then 1 else 0) rest := by
  have hcount : ∀ before : List Mention, spent + (m :: before).countP Mention.stray =
      spent + (if m.stray then 1 else 0) + before.countP Mention.stray := fun before => by
    rw [List.countP_cons]
    omega
  constructor
  · intro h
    refine ⟨h [] rest m rfl, fun before after n hn => ?_⟩
    rw [← hcount]
    exact h (m :: before) after n (by rw [hn, List.cons_append])
  · rintro ⟨hhead, hrest⟩ before after n hn
    cases before with
    | nil =>
      obtain ⟨rfl, rfl⟩ := List.cons.inj hn
      exact hhead
    | cons m' before =>
      obtain ⟨rfl, htail⟩ := List.cons.inj hn
      rw [hcount]
      exact hrest before after n htail

/-- Whether mentions are level is found on the way through them. -/
def decidableLevel : (spent : Nat) → (l : List Mention) → Decidable (Level spent l)
  | spent, [] => .isTrue (level_nil spent)
  | spent, m :: rest =>
    have := decidableLevel (spent + if m.stray then 1 else 0) rest
    decidable_of_iff _ level_cons.symm

end Step

namespace IdSource

open Step (Mention Level level_nil level_cons visitedIds visitedIds_visited visitedIds_unvisited)

/-- Numbers that two sources supply. -/
theorem take_eq_iff {ids ids' : IdSource} {spent : Nat}
    (h : ids.next = ids'.next + UInt64.ofNat spent) :
    ids.take.1 = ids'.take.1 ↔ UInt64.size ∣ spent := by
  have hlt : ids'.next.toNat < UInt64.size := ids'.next.toNat_lt
  have hnext : ids.next.toNat = (ids'.next.toNat + spent) % UInt64.size := by
    rw [h, UInt64.toNat_add, UInt64.toNat_ofNat', Nat.add_mod_mod]
  show toString ids.next.toNat = toString ids'.next.toNat ↔ _
  rw [toString_inj, hnext]
  unfold UInt64.size at *
  omega

/-- **Agreement.** One source goes through all mentions and the other one through the visited steps,
    `spent` ids behind.  The visited steps get the same ids just if the mentions are level. -/
theorem names_writeAll_iff (l : List Mention) : ∀ (spent : Nat) (ids ids' : IdSource),
    ids.next = ids'.next + UInt64.ofNat spent →
    ((visitedIds (ids.writeAll l)).map authored? = (ids'.names (visitedIds l)).map some ↔
      Level spent l) := by
  induction l with
  | nil => exact fun spent ids ids' _ => ⟨fun _ => level_nil spent, fun _ => rfl⟩
  | cons m rest ih =>
    intro spent ids ids' h
    obtain ⟨written, visited⟩ := m
    have htake : ids.take.2.next = ids.next + 1 := rfl
    have htake' : ids'.take.2.next = ids'.next + 1 := rfl
    have hstray : Mention.stray ⟨written, visited⟩ = (!visited && (authored? written).isNone) := rfl
    rw [level_cons, hstray]
    dsimp only
    cases hw : authored? written with
    | some id =>
      -- A written id takes nothing from either source.
      have hrest := ih spent ids ids' h
      cases visited with
      | true =>
        rw [writeAll, visitedIds_visited, visitedIds_visited, names, List.map_cons, List.map_cons,
          authored?_write, name_of_authored hw, name_of_authored hw, List.cons.injEq]
        simpa using hrest
      | false =>
        rw [writeAll, visitedIds_unvisited, visitedIds_unvisited, name_of_authored hw]
        simpa using hrest
    | none =>
      cases visited with
      | true =>
        have hnext : ids.take.2.next = ids'.take.2.next + UInt64.ofNat spent := by
          rw [htake, htake', h]
          ac_rfl
        have hrest := ih spent ids.take.2 ids'.take.2 hnext
        rw [writeAll, visitedIds_visited, visitedIds_visited, names, List.map_cons, List.map_cons,
          authored?_write, name_of_unnamed hw, name_of_unnamed hw, List.cons.injEq, hrest,
          Option.some.injEq, take_eq_iff h]
        simp
      | false =>
        have hnext : ids.take.2.next = ids'.next + UInt64.ofNat (spent + 1) := by
          rw [htake, h, UInt64.ofNat_add]
          ac_rfl
        have hrest := ih (spent + 1) ids.take.2 ids' hnext
        rw [writeAll, visitedIds_unvisited, visitedIds_unvisited, name_of_unnamed hw]
        simpa using hrest

end IdSource

/-! ### Padded ids -/

namespace IdSource

/-- An id that is not padded with blanks. -/
def Plain (written : Option String) : Prop :=
  ∀ id, authored? written = some id → written = some id

instance : DecidablePred Plain := fun written =>
  decidable_of_iff (∀ id ∈ authored? written, written = some id) Iff.rfl

/-- An id that is supplied is not padded. -/
theorem plain_write (ids : IdSource) (written : Option String) :
    Plain (ids.write written) ↔ Plain written := by
  rw [write]
  cases h : authored? written with
  | some id => rw [Option.isSome_some, if_pos rfl]
  | none =>
    rw [Option.isSome_none, if_neg (by simp), name_of_unnamed h]
    refine ⟨fun _ id hid => ?_, fun _ id hid => ?_⟩
    · rw [h] at hid
      cases hid
    · rwa [take, authored?_toString] at hid

open Step (Mention visitedIds visitedIds_visited visitedIds_unvisited)

/-- `plain_write` along a stretch of `Mention`s. -/
theorem plain_writeAll (l : List Mention) (ids : IdSource) :
    (∀ w ∈ visitedIds (ids.writeAll l), Plain w) ↔ ∀ w ∈ visitedIds l, Plain w := by
  induction l generalizing ids with
  | nil => rfl
  | cons m rest ih =>
    obtain ⟨written, visited⟩ := m
    cases visited with
    | true =>
      rw [writeAll, visitedIds_visited, visitedIds_visited, List.forall_mem_cons,
        List.forall_mem_cons, plain_write, ih]
    | false => rw [writeAll, visitedIds_unvisited, visitedIds_unvisited, ih]

end IdSource

/-! ### Documents and their graphs -/

namespace Step

/-- No id of a visited step is padded with blanks. -/
def Unpadded (document : List Step) : Prop :=
  ∀ p ∈ visitAll .root 0 document, IdSource.Plain p.2.id

/-- No id is spent on a stray step before a visited step is supplied with one, unless the source has
    come around. -/
def InStep (document : List Step) : Prop := Level 0 (mentions true document)

instance (document : List Step) : Decidable (Unpadded document) :=
  inferInstanceAs (Decidable (∀ p ∈ visitAll .root 0 document, IdSource.Plain p.2.id))

instance (document : List Step) : Decidable (InStep document) :=
  decidableLevel 0 (mentions true document)

end Step

namespace Graph

open IdSource (authored? Plain)
open Step (mentions visitedIds visitedIds_mentions)

/-- The ids of the visited steps of a filled document are those of the nodes, but for blanks, just
    if the document is in step. -/
theorem authored_fill_iff (document : List Step) (ids : IdSource) :
    ((visitAll .root 0 (ids.fill document).1).map fun p => authored? p.2.id) =
        (ids.names ((visitAll .root 0 document).map fun p => p.2.id)).map some ↔
      Step.InStep document := by
  have hmentions := (IdSource.mentions_fill true document ids).1
  have hnext : ids.next = ids.next + UInt64.ofNat 0 := by simp
  rw [Step.InStep, ← IdSource.names_writeAll_iff (mentions true document) 0 ids ids hnext,
    ← hmentions, visitedIds_mentions .root 0, visitedIds_mentions .root 0, List.map_map]
  rfl

/-- Filling writes no padded id, so a filled document has padded ids where they were written. -/
theorem plain_fill_iff (document : List Step) (ids : IdSource) :
    (∀ p ∈ visitAll .root 0 (ids.fill document).1, Plain p.2.id) ↔ Step.Unpadded document := by
  have hvisited : ∀ steps : List Step, (∀ p ∈ visitAll .root 0 steps, Plain p.2.id) ↔
      ∀ w ∈ visitedIds (mentions true steps), Plain w := fun steps => by
    rw [visitedIds_mentions .root 0, List.forall_mem_map]
  rw [Step.Unpadded, hvisited, hvisited, (IdSource.mentions_fill true document ids).1,
    IdSource.plain_writeAll]

/-- The nodes of a graph that was built have the names of the visited steps. -/
theorem names_build {document : List Step} {ids rest : IdSource} {g : Graph}
    (h : build document ids = (.ok g, rest)) :
    (Node.listing g.nodes).map Node.id =
      ids.names ((visitAll .root 0 document).map fun p => p.2.id) := by
  have hnames := (names_chain .root 0 document ⟨ids, [], []⟩).1
  rw [build_eq, draft] at h
  generalize (chain .root 0 document).run ⟨ids, [], []⟩ = made at *
  obtain ⟨nodes, d⟩ := made
  dsimp only at h
  split at h
  · cases h
  · cases h
    exact hnames

/-- **Ids of a document and of its graph.** When a document is filled from the source that its graph
    is built from, its steps have the ids of their nodes just if no id is padded with blanks and the
    document is in step. -/
theorem names_fill {document : List Step} {ids rest : IdSource} {g : Graph}
    (h : build document ids = (.ok g, rest)) :
    Names (ids.fill document).1 g ↔ Step.Unpadded document ∧ Step.InStep document := by
  have hnodes := names_build h
  have hlisted : ((Node.listing g.nodes).map fun n => some n.id) =
      (ids.names ((visitAll .root 0 document).map fun p => p.2.id)).map some := by
    rw [← hnodes, List.map_map]
    rfl
  have hstored : ∀ id ∈ ids.names ((visitAll .root 0 document).map fun p => p.2.id),
      authored? (some id) = some id := fun id => IdSource.authored?_of_mem_names
  rw [← plain_fill_iff document ids, ← authored_fill_iff document ids, Names, hlisted]
  generalize ids.names ((visitAll .root 0 document).map fun p => p.2.id) = names at *
  generalize visitAll .root 0 (ids.fill document).1 = visited at *
  constructor
  · intro hnames
    have hmem : ∀ p ∈ visited, ∃ id ∈ names, p.2.id = some id := fun p hp => by
      have hid : p.2.id ∈ names.map some := hnames ▸ List.mem_map_of_mem hp
      obtain ⟨id, hid, heq⟩ := List.mem_map.1 hid
      exact ⟨id, hid, heq.symm⟩
    refine ⟨fun p hp id hid => ?_, ?_⟩
    · obtain ⟨id', hid', heq⟩ := hmem p hp
      rw [heq] at hid ⊢
      exact (hstored id' hid').symm.trans hid
    · rw [← hnames]
      refine List.map_congr_left fun p hp => ?_
      obtain ⟨id', hid', heq⟩ := hmem p hp
      rw [heq, hstored id' hid']
  · rintro ⟨hplain, hauthored⟩
    rw [← hauthored]
    refine List.map_congr_left fun p hp => ?_
    -- Each id counts as written, so an id that is not padded is what it counts as.
    have hid : authored? p.2.id ∈ names.map some := by
      rw [← hauthored]
      exact List.mem_map_of_mem hp
    obtain ⟨id, -, heq⟩ := List.mem_map.1 hid
    rw [← heq]
    exact hplain p hp id heq.symm

/-- Two steps that are supplied with ids, and a loop between them. -/
def mixedSteps : List Step :=
  [.execute "u",
    { Step.forEach "@alert:hosts" with
      id := some "hosts", body := [{ Step.execute "v" with id := some "kept" }] },
    { Step.execute "w" with id := some "  " }]

/-- What is made of `mixedSteps`. -/
def mixedGraph : Graph :=
  ⟨[.action "1" "u" ∅ ∅, .loop "hosts" "@alert:hosts" none [.action "kept" "v" ∅ ∅],
    .action "2" "w" ∅ ∅]⟩

/-- The ids of `mixedSteps` are plain and none of its steps is stray. -/
theorem names_fill_mixedSteps :
    build mixedSteps .fresh = (.ok mixedGraph, ⟨3⟩) ∧
      Names (IdSource.fresh.fill mixedSteps).1 mixedGraph := by
  have hbuild : build mixedSteps .fresh = (.ok mixedGraph, ⟨3⟩) := by
    rw [build_eq]
    rfl
  have hplain : Step.Unpadded mixedSteps := by decide +kernel
  have hstep : Step.InStep mixedSteps := by decide +kernel
  exact ⟨hbuild, (names_fill hbuild).2 ⟨hplain, hstep⟩⟩

/-- An action with a step in a branch that actions make no use of, an action, and one with an id
    between blanks. -/
def strayedSteps : List Step :=
  [{ Step.execute "u" with onTrue := [.execute "v"] }, .execute "w",
    { Step.execute "x" with id := some " c " }]

/-- The second action is "2" in the graph and "3" in the document, and the third one is written with
    blanks around its id. -/
theorem not_names_strayedSteps :
    ∃ (g : Graph) (rest : IdSource), build strayedSteps .fresh = (.ok g, rest) ∧
      (Node.listing g.nodes).map Node.id = ["1", "2", "c"] ∧
      ((visitAll .root 0 (IdSource.fresh.fill strayedSteps).1).map fun p => p.2.id) =
        [some "1", some "3", some " c "] ∧
      ¬ Names (IdSource.fresh.fill strayedSteps).1 g := by
  refine ⟨⟨[.action "1" "u" ∅ ∅, .action "2" "w" ∅ ∅, .action "c" "x" ∅ ∅]⟩, ⟨3⟩, rfl, rfl, rfl, ?_⟩
  unfold Names
  decide +kernel

end Graph

end Runbook
