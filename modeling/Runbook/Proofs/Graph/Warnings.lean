import Runbook.Proofs.Condition.Parsing
import Runbook.Proofs.Graph.Checked
import Runbook.Proofs.Graph.Defects
import Runbook.Proofs.Graph.Mirror
import Runbook.Scope.Change

namespace Runbook

/-!
# Runbook graphs — what a check warns of

A check warns of tokens that look like references and are none.  When the node of a step runs, it
looks up the tokens that its kind makes use of, and no others.

* `Node.tokens` — the tokens that a node looks up;
* `Graph.Warns` — a check warns of a token in a field of the step at a place;
* `Graph.warns_iff` — these are the tokens of the step's node that spell no reference;
* `Scope.lookup_eq_none`, `Scope.exists_lookup` — no scope knows a token that spells no reference,
  and any text may stand in a scope for one that does.
-/

open Step (visit visitAll visit_eq executeKind ifKind forKind)

/-! ### Tokens of nodes -/

/-- The tokens that a node looks up when it runs, in this order. -/
def Node.tokens : Node → List String
  | .action _ _ params _ => (params.entries.map Prod.snd).filter Reference.needsLookup
  | .choice _ condition _ _ =>
    match Comparison.parse condition with
    | .ok c => c.references
    | .error _ => []
  | .loop _ elements _ _ => [elements]

theorem Operand.needsLookup_of_ofText {s token : String} (h : ofText s = .reference token) :
    Reference.needsLookup token = true := by
  rw [ofText] at h
  split at h
  · exact Operand.reference.inj h ▸ ‹_›
  · cases h

/-- The operands of a comparison are told from the texts between which the operator stands. -/
theorem Comparison.parse_ok {s : String} {c : Comparison} (h : parse s = .ok c) :
    (∃ lhs, c.lhs = .ofText lhs) ∧ ∃ rhs, c.rhs = .ofText rhs := by
  obtain ⟨_, _, _, hop, _⟩ := of_parse h
  obtain ⟨_, _, _, _, _, _, hc⟩ := of_splitAt? hop
  rw [hc]
  exact ⟨⟨_, rfl⟩, _, rfl⟩

theorem Comparison.needsLookup_of_parse {s token : String} {c : Comparison} (h : parse s = .ok c)
    (hmem : token ∈ c.references) : Reference.needsLookup token = true := by
  obtain ⟨⟨lhs, hlhs⟩, rhs, hrhs⟩ := parse_ok h
  rcases mem_references.1 hmem with hl | hr
  · exact Operand.needsLookup_of_ofText (hlhs.symm.trans hl)
  · exact Operand.needsLookup_of_ofText (hrhs.symm.trans hr)

/-- What a checked node looks up has the mark of a reference. -/
theorem Node.Checked.needsLookup {n : Node} (h : n.Checked) {token : String}
    (hmem : token ∈ n.tokens) : Reference.needsLookup token = true := by
  cases n with
  | action id urn params exports => exact (List.mem_filter.1 hmem).2
  | choice id condition yes no =>
    rw [Node.tokens] at hmem
    cases hparse : Comparison.parse condition with
    | ok c =>
      rw [hparse] at hmem
      exact Comparison.needsLookup_of_parse hparse hmem
    | error e =>
      rw [hparse] at hmem
      exact absurd hmem List.not_mem_nil
  | loop id elements itemAs body => exact List.mem_singleton.1 hmem ▸ h

/-! ### Places -/

namespace Location

theorem segments_foldl_key (fields : List String) : ∀ place : Location,
    (fields.foldl key place).segments = place.segments ++ fields.map Segment.key := by
  induction fields with
  | nil => exact fun place => (List.append_nil _).symm
  | cons name rest ih =>
    intro place
    rw [List.foldl_cons, ih, List.map_cons]
    exact List.append_assoc ..

/-- Segments that end in an index do not end in a key. -/
theorem eq_nil_of_keys {segments above below : List Segment} {j : Nat}
    (h : above ++ [.index j] = segments ++ below) (hkeys : ∀ x ∈ below, ∃ name, x = .key name) :
    below = [] := by
  rcases List.eq_nil_or_concat below with rfl | ⟨rest, x, rfl⟩
  · rfl
  · rw [List.concat_eq_append] at hkeys h
    rw [← List.append_assoc] at h
    obtain ⟨name, rfl⟩ := hkeys x (List.mem_append_right _ (List.mem_singleton_self x))
    exact absurd (List.append_inj_right' h rfl) (by simp)

/-- The location of a field tells the element of a list that has the field. -/
theorem eq_of_fields {l l' : Location} {i j : Nat} {fields fields' : List String}
    (h : fields.foldl key (l.index i) = fields'.foldl key (l'.index j)) :
    l.index i = l'.index j := by
  have hsegments := congrArg Location.segments h
  rw [segments_foldl_key, segments_foldl_key] at hsegments
  have hkeys : ∀ {below after : List Segment} {names : List String},
      names.map Segment.key = below ++ after → ∀ x ∈ below, ∃ name, x = .key name := by
    intro below after names heq x hx
    obtain ⟨name, -, hname⟩ := List.mem_map.1 (heq ▸ List.mem_append_left after hx)
    exact ⟨name, hname.symm⟩
  -- What one of the two continues the other by is part of the keys, so it is nothing.
  suffices hplace : (l.index i).segments = (l'.index j).segments from congrArg Location.mk hplace
  rcases List.append_eq_append_iff.1 hsegments with ⟨below, hl, hf⟩ | ⟨below, hl, hf⟩
  · rw [hl, eq_nil_of_keys hl (hkeys hf), List.append_nil]
  · rw [hl, eq_nil_of_keys hl (hkeys hf), List.append_nil]

end Location

namespace Step

mutual

theorem index_of_mem_visit {place : Location} (hplace : ∃ l i, place = Location.index l i) :
    ∀ {s : Step} {p : Location × Step}, p ∈ visit place s → ∃ l i, p.1 = Location.index l i
  | ⟨id, kind, urn, params, exports, condition, onTrue, onFalse, iterateOn, itemAs, body⟩,
      p, h => by
    rw [visit, List.mem_cons] at h
    rcases h with rfl | h
    · exact hplace
    split at h
    · exact (List.mem_append.1 h).elim index_of_mem_visitAll index_of_mem_visitAll
    · split at h
      · exact index_of_mem_visitAll h
      · exact absurd h List.not_mem_nil

/-- A visited step is an element of a list. -/
theorem index_of_mem_visitAll {place : Location} : ∀ {position : Nat} {steps : List Step}
    {p : Location × Step}, p ∈ visitAll place position steps → ∃ l i, p.1 = Location.index l i
  | position, [], p, h => absurd h List.not_mem_nil
  | position, s :: rest, p, h => by
    rw [visitAll] at h
    exact (List.mem_append.1 h).elim (index_of_mem_visit ⟨place, position, rfl⟩)
      index_of_mem_visitAll

end

/-- The location of a field tells the visited step that has the field. -/
theorem eq_of_fields {document : List Step} {p q : Location × Step}
    (hp : p ∈ visitAll .root 0 document) (hq : q ∈ visitAll .root 0 document)
    {fields fields' : List String}
    (h : fields.foldl Location.key p.1 = fields'.foldl Location.key q.1) : p = q := by
  obtain ⟨l, i, hl⟩ := index_of_mem_visitAll hp
  obtain ⟨l', j, hl'⟩ := index_of_mem_visitAll hq
  rw [hl, hl'] at h
  have hplace : p.1 = q.1 := by rw [hl, hl', Location.eq_of_fields h]
  exact List.inj_on_of_nodup_map (nodup_visitAll .root 0 document) hp hq hplace

end Step

/-! ### Warnings -/

namespace Defect

/-- A message names one token. -/
theorem unrecognizedMessage_inj {token token' : String}
    (h : unrecognizedMessage token = unrecognizedMessage token') : token = token' :=
  (String.append_right_inj _).1 ((String.append_left_inj _).1 h)

variable {earlier : List Visit} {v : Visit} {n : Node} {token : String}

/-- A warning is about a token that the node of the step looks up. -/
theorem mem_tokens {d : Defect} (hb : Graph.Built v.step n) (hd : Defective earlier v d)
    (hwarning : d.severity = .warning) (hmessage : d.message v = unrecognizedMessage token) :
    token ∈ n.tokens ∧ Unrecognized token := by
  -- A defect tells the kind of the step, and so does the node that was made of it.
  cases d
  case unrecognizedParam name token' =>
    obtain rfl := unrecognizedMessage_inj hmessage
    obtain ⟨hexec, hget, htoken⟩ := hd
    cases hb with
    | action =>
      have hentry := List.mem_map_of_mem (Dict.mem_entries.2 hget) (f := Prod.snd)
      exact ⟨List.mem_filter.2 ⟨hentry, htoken.1⟩, htoken⟩
    | choice _ hkind => exact absurd (hexec.symm.trans hkind) (by decide)
    | loop _ hkind => exact absurd (hexec.symm.trans hkind) (by decide)
  case unrecognizedOperand token' =>
    obtain rfl := unrecognizedMessage_inj hmessage
    obtain ⟨hif, s, hs, c, hparse, hoperand, htoken⟩ := hd
    cases hb with
    | choice =>
      have hcondition : v.step.condition = some s := hs
      rw [Node.tokens, hcondition, Option.getD_some, hparse]
      exact ⟨Comparison.mem_references.2 hoperand, htoken⟩
    | action _ hkind => exact absurd (hif.symm.trans hkind) (by decide)
    | loop _ hkind => exact absurd (hif.symm.trans hkind) (by decide)
  case unrecognizedElements =>
    obtain rfl := unrecognizedMessage_inj hmessage
    obtain ⟨hfor, s, hs, htoken⟩ := hd
    have helements : Graph.trimmed v.step.iterateOn = Text.trim s := by
      have hiterate : v.step.iterateOn = some s := hs
      rw [hiterate]
      rfl
    cases hb with
    | loop => exact ⟨List.mem_singleton_self _, helements ▸ htoken⟩
    | action _ hkind => exact absurd (hfor.symm.trans hkind) (by decide)
    | choice _ hkind => exact absurd (hfor.symm.trans hkind) (by decide)
  all_goals cases hwarning

/-- A token that the node of a step looks up and that spells no reference is a defect of the step,
    whatever steps are visited before. -/
theorem of_mem_tokens (hb : Graph.Built v.step n) (hmem : token ∈ n.tokens)
    (htoken : Unrecognized token) :
    ∃ d : Defect, (∀ earlier, Defective earlier v d) ∧ d.severity = .warning ∧
      d.kind = "unrecognized_reference" ∧ d.message v = unrecognizedMessage token ∧
      ∃ fields : List String, d.location v.place = fields.foldl Location.key v.place := by
  generalize hs : v.step = s at hb
  cases hb with
  | action _ hkind =>
    obtain ⟨⟨name, token'⟩, hentry, hname⟩ := List.mem_map.1 (List.mem_filter.1 hmem).1
    obtain rfl : token' = token := hname
    have hget := Dict.mem_entries.1 hentry
    exact ⟨.unrecognizedParam name token', fun _ => ⟨hs ▸ hkind, hs ▸ hget, htoken⟩, rfl, rfl, rfl,
      ["params", name], rfl⟩
  -- A condition that does not parse has no operands to look up.
  | choice _ hkind =>
    rw [Node.tokens] at hmem
    cases hcondition : s.condition with
    | none =>
      rw [hcondition] at hmem
      exact absurd hmem List.not_mem_nil
    | some t =>
      rw [hcondition, Option.getD_some] at hmem
      cases hparse : Comparison.parse t with
      | error e =>
        rw [hparse] at hmem
        exact absurd hmem List.not_mem_nil
      | ok c =>
        rw [hparse] at hmem
        refine ⟨.unrecognizedOperand token, fun _ => ⟨hs ▸ hkind, t, hs ▸ hcondition, c, hparse,
          Comparison.mem_references.1 hmem, htoken⟩, rfl, rfl, rfl, ["condition"], rfl⟩
  | loop _ hkind =>
    obtain rfl := List.mem_singleton.1 hmem
    cases helements : s.iterateOn with
    | none =>
      rw [helements] at htoken
      exact absurd htoken.1 (by decide)
    | some t =>
      -- The node has the trimmed text of its elements.
      have htoken' : Unrecognized (Text.trim t) := by
        rw [helements] at htoken
        exact htoken
      refine ⟨.unrecognizedElements, fun _ => ⟨hs ▸ hkind, t, hs ▸ helements, htoken'⟩, rfl, rfl,
        ?_, ["iterateOn"], rfl⟩
      rw [message, hs, helements]

end Defect

namespace Graph

/-- A check warns of a token in a field of the step at `place`. -/
def Warns (document : List Step) (place : Location) (token : String) : Prop :=
  ∃ w ∈ validate document, w.severity = .warning ∧ w.kind = "unrecognized_reference" ∧
    w.message = Defect.unrecognizedMessage token ∧
    ∃ fields : List String, w.location = fields.foldl Location.key place

/-- The issues that a check lists are those of the defects of the visited steps. -/
theorem mem_validate {document : List Step} {w : Issue} :
    w ∈ validate document ↔ ∃ before v after d, visits document = before ++ v :: after ∧
      Defective before v d ∧ w = d.issue v := by
  rw [validate_eq, Issue.sort, (List.mergeSort_perm _ Issue.precedes).mem_iff, found_draft,
    List.mem_map]
  constructor
  · rintro ⟨⟨v, d⟩, hdefect, rfl⟩
    obtain ⟨before, after, hvisits, hd⟩ := Visit.mem_allDefects.1 hdefect
    exact ⟨before, v, after, d, hvisits, hd, rfl⟩
  · rintro ⟨before, v, after, d, hvisits, hd, rfl⟩
    exact ⟨(v, d), Visit.mem_allDefects.2 ⟨before, after, hvisits, hd⟩, rfl⟩

theorem mem_visitAll_of_visits {document : List Step} {before after : List Visit} {v : Visit}
    (h : visits document = before ++ v :: after) :
    (v.place, v.step) ∈ visitAll .root 0 document := by
  rw [← map_identify .fresh (visitAll .root 0 document), ← visits, h]
  exact List.mem_map.2 ⟨v, List.mem_append_right _ List.mem_cons_self, rfl⟩

/-- **Warnings.** A check warns of the tokens that the node of a step looks up and that spell no
    reference. -/
theorem warns_iff {document : List Step} {p : Location × Step} {n : Node} {token : String}
    (hp : p ∈ visitAll .root 0 document) (hb : Built p.2 n) :
    Warns document p.1 token ↔ token ∈ n.tokens ∧ Unrecognized token := by
  constructor
  · rintro ⟨w, hw, hwarning, -, hmessage, fields, hlocation⟩
    obtain ⟨before, v, after, d, hvisits, hd, rfl⟩ := mem_validate.1 hw
    have hlocated : ∃ fields' : List String,
        d.location v.place = fields'.foldl Location.key v.place := by
      cases d with
      | unrecognizedParam name => exact ⟨["params", name], rfl⟩
      | _ => exact ⟨[Step.Field.name _], rfl⟩
    obtain ⟨fields', hfields⟩ := hlocated
    -- The location of the issue tells the step, so the defect is one of this step.
    obtain rfl : p = (v.place, v.step) := Step.eq_of_fields hp (mem_visitAll_of_visits hvisits)
      (hlocation.symm.trans hfields)
    exact Defect.mem_tokens hb hd hwarning hmessage
  · rintro ⟨hmem, htoken⟩
    rw [← map_identify .fresh (visitAll .root 0 document), ← visits] at hp
    obtain ⟨v, hv, rfl⟩ := List.mem_map.1 hp
    obtain ⟨before, after, hvisits⟩ := List.append_of_mem hv
    obtain ⟨d, hd, hwarning, hkind, hmessage, hlocation⟩ := Defect.of_mem_tokens hb hmem htoken
    exact ⟨d.issue v, mem_validate.2 ⟨before, v, after, d, hvisits, hd before, rfl⟩, hwarning,
      hkind, hmessage, hlocation⟩

/-- A listed node was made of the step that is visited at the same position. -/
theorem built_at {document : List Step} {nodes : List Node} (h : BuiltAll document nodes) {i : Nat}
    {n : Node} (hn : (Node.listing nodes)[i]? = some n) :
    ∃ p, (visitAll .root 0 document)[i]? = some p ∧ Built p.2 n := by
  obtain ⟨place, s, hs, hstands⟩ := stands_visitAll h
    (List.prefix_rfl : Stands (visitAll .root 0 document) 0 _) hn
  rw [Nat.zero_add, visit_eq, stands_cons] at hstands
  exact ⟨(place, s), hstands.1, hs⟩

end Graph

/-! ### Tokens in scopes -/

namespace Scope

/-- No scope knows a token that spells no reference. -/
theorem lookup_eq_none {token : String} (h : Reference.parse? token = none) (s : Scope) :
    s.lookup token = none := by
  rw [lookup, h]
  rfl

/-- An action that has succeeded has its result. -/
theorem resultOf?_completeAction (s : Scope) (node : String) (result : ActionResult)
    (exports : Dict String Value) (h : s.actions.get? node = none) :
    (s.apply (.completeAction node result exports)).resultOf? node = some result := by
  show (((s.actions.update node {} _).get? node).filter ActionRecord.succeeded).bind _ = _
  rw [Dict.get?_update_self, h]
  rfl

/-- Any text may stand for a token that spells a reference: in a scope that was seeded with it, or
    after one change of a scope. -/
theorem exists_lookup {token : String} {r : Reference} (h : Reference.parse? token = some r)
    (text : String) : ∃ (seed : Dict String Value) (c : Change),
      (({ seed := seed } : Scope).apply c).lookup token = some (.scalar text) := by
  have hlookup : ∀ s : Scope, s.lookup token = s.resolve? r := fun s => by
    rw [lookup, h]
    rfl
  have hresult : ∀ (node : String) (result : ActionResult), (({ seed := ∅ } : Scope).apply
      (.completeAction node result ∅)).resultOf? node = some result := fun node result =>
    resultOf?_completeAction _ node result ∅ rfl
  simp only [hlookup]
  cases r with
  | alert key =>
    -- A seed can have any key, and closing a scope leaves it as it is.
    exact ⟨.singleton key (.scalar text), .close, by simp [resolve?, apply, change]⟩
  | exported name =>
    exact ⟨∅, .publish (.singleton name (.scalar text)),
      by simp [resolve?, apply, change, addExports]⟩
  | output node field =>
    cases field with
    | raw =>
      refine ⟨∅, .completeAction node { raw := text } ∅, ?_⟩
      rw [resolve?, hresult]
      rfl
    | named name =>
      refine ⟨∅, .completeAction node { fields := .singleton name text } ∅, ?_⟩
      rw [resolve?, output?, hresult, Option.bind_some, Dict.get?_singleton, if_pos rfl]
      rfl

end Scope

end Runbook
