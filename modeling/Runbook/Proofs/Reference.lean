import Runbook.Proofs.Text
import Runbook.Reference

namespace Runbook

/-!
# References — which tokens spell them

A token spells a reference by one of three forms.  The reader takes them apart by a fixed beginning
and, for the output of an action, by the first `$`; the writer puts them together again.

* `Reference.Spells` — the grammar: which token spells which reference;
* `Reference.parse?_eq_some` — the reader finds what a token spells, unless it is a field that goes
  over several lines;
* `Reference.spells_iff` — the tokens of the grammar are the texts of well-formed references;
* `Reference.follows_iff` — on which tokens the reader follows the grammar;
* `Reference.roundTrips_parse` — what reading and writing say of each other.
-/

/-- The output that a field of a reference selects. -/
def OutputField.ofName (name : String) : OutputField :=
  if name = "raw" then .raw else .named name

namespace Reference

/-- The grammar of references. -/
inductive Spells : String → Reference → Prop
  | alert {key : String} : key ≠ "" → Spells ("@alert:" ++ key) (.alert key)
  | output {node field : String} : node ≠ "" → '$' ∉ node.toList → field ≠ "" →
      Spells ("@node:" ++ node ++ "$" ++ field) (.output node (.ofName field))
  | exported {name : String} : name ≠ "" → Spells ("$" ++ name) (.exported name)

/-- The field of a reference, if it has one, does not go over several lines. -/
def OnOneLine : Reference → Prop
  | output _ (.named name) => '\n' ∉ name.toList
  | _ => True

/-- A reference that the grammar has a token for. -/
def WellFormed : Reference → Prop
  | alert key => key ≠ ""
  | output node .raw => node ≠ "" ∧ '$' ∉ node.toList
  | output node (.named name) => node ≠ "" ∧ '$' ∉ node.toList ∧ name ≠ "" ∧ name ≠ "raw"
  | exported name => name ≠ ""

variable {token key node field name : String} {r : Reference}

/-! ### Tokens as lists of characters -/

theorem toList_alert (key : String) : ("@alert:" ++ key).toList = alertMark ++ key.toList := by
  rw [String.toList_append]
  rfl

theorem toList_output (node field : String) : ("@node:" ++ node ++ "$" ++ field).toList =
    nodeMark ++ (node.toList ++ ['$'] ++ field.toList) := by
  rw [String.toList_append, String.toList_append, String.toList_append, List.append_assoc,
    List.append_assoc, List.append_assoc]
  rfl

theorem toList_exported (name : String) : ("$" ++ name).toList = '$' :: name.toList := by
  rw [String.toList_append]
  rfl

/-- The field of a reference as a text goes over several lines only if the reference does. -/
theorem onOneLine_ofName : (output node (.ofName field)).OnOneLine ↔ '\n' ∉ field.toList := by
  unfold OutputField.ofName
  split
  · rename_i hraw
    rw [hraw]
    exact ⟨fun _ => by decide, fun _ => trivial⟩
  · rfl

/-! ### Reading -/

/-- A token is cut at the first `$`, and both parts have to say something. -/
theorem parseOutput?_eq_some {cs : List Char} : parseOutput? cs = some r ↔
    ∃ node field : List Char, cs = node ++ ['$'] ++ field ∧ node ≠ [] ∧ '$' ∉ node ∧ field ≠ [] ∧
      '\n' ∉ field ∧ r = .output (String.ofList node) (.ofName (String.ofList field)) := by
  constructor
  · intro h
    unfold parseOutput? at h
    split at h
    · rename_i node field hcut
      split at h
      · cases h
      · rename_i hparts
        simp only [Bool.or_eq_true, List.isEmpty_iff, List.contains_iff_mem, not_or] at hparts
        obtain ⟨⟨hnode, hfield⟩, hline⟩ := hparts
        -- The cut is the first one, so the part before it has no `$`.
        have hdollar := Text.not_infix_of_cutAt (List.cons_ne_nil '$' []) hcut
        rw [List.singleton_infix_iff] at hdollar
        exact ⟨node, field, Text.cutAt_eq_some hcut, hnode, hdollar, hfield, hline,
          (Option.some.inj h).symm⟩
    · cases h
  · rintro ⟨node, field, rfl, hnode, hdollar, hfield, hline, rfl⟩
    have hparts : (node.isEmpty || field.isEmpty || field.contains '\n') = false := by
      simp [hnode, hfield, hline]
    rw [parseOutput?, Text.cutAt_append hdollar]
    simp only [hparts]
    rfl

theorem parse?_alert (h : key ≠ "") : parse? ("@alert:" ++ key) = some (.alert key) := by
  rw [parse?, toList_alert, Text.dropPrefix?_eq_some.2 rfl]
  simp [h]

theorem parse?_output (hnode : node ≠ "") (hdollar : '$' ∉ node.toList) (hfield : field ≠ "")
    (hline : '\n' ∉ field.toList) :
    parse? ("@node:" ++ node ++ "$" ++ field) = some (.output node (.ofName field)) := by
  -- The two marks differ in their second character.
  have halert : Text.dropPrefix? alertMark (nodeMark ++ (node.toList ++ ['$'] ++ field.toList)) =
      none := Text.dropPrefix?_eq_none.2 fun hpre => by simp [alertMark, nodeMark] at hpre
  have hread : parseOutput? (node.toList ++ ['$'] ++ field.toList) =
      some (.output node (.ofName field)) := by
    refine parseOutput?_eq_some.2 ⟨_, _, rfl, ?_, hdollar, ?_, hline, ?_⟩
    · exact mt String.toList_eq_nil_iff.1 hnode
    · exact mt String.toList_eq_nil_iff.1 hfield
    · rw [String.ofList_toList, String.ofList_toList]
  rw [parse?, toList_output, halert, Text.dropPrefix?_eq_some.2 rfl]
  exact hread

theorem parse?_exported (h : name ≠ "") : parse? ("$" ++ name) = some (.exported name) := by
  -- Neither of the two marks begins with a dollar sign.
  have halert : Text.dropPrefix? alertMark ('$' :: name.toList) = none :=
    Text.dropPrefix?_eq_none.2 fun hpre => by simp [alertMark] at hpre
  have hnode : Text.dropPrefix? nodeMark ('$' :: name.toList) = none :=
    Text.dropPrefix?_eq_none.2 fun hpre => by simp [nodeMark] at hpre
  rw [parse?, toList_exported, halert, hnode]
  simp [h]

/-- Whatever is read is spelled by the token, on one line. -/
theorem spells_of_parse? (h : parse? token = some r) : Spells token r ∧ r.OnOneLine := by
  unfold parse? at h
  split at h
  case h_1 key halert =>
    split at h
    · cases h
    · rename_i hkey
      obtain rfl := Option.some.inj h
      have htoken : token = "@alert:" ++ String.ofList key := by
        rw [← String.toList_inj, toList_alert, String.toList_ofList]
        exact Text.dropPrefix?_eq_some.1 halert
      rw [htoken]
      exact ⟨.alert (by simpa using hkey), trivial⟩
  case h_2 =>
    split at h
    case h_1 rest hrest =>
      obtain ⟨node, field, hcut, hnode, hdollar, hfield, hline, rfl⟩ := parseOutput?_eq_some.1 h
      have htoken : token = "@node:" ++ String.ofList node ++ "$" ++ String.ofList field := by
        rw [← String.toList_inj, toList_output, String.toList_ofList, String.toList_ofList, ← hcut]
        exact Text.dropPrefix?_eq_some.1 hrest
      rw [htoken, onOneLine_ofName, String.toList_ofList]
      exact ⟨.output (mt String.ofList_eq_empty_iff.1 hnode) (by rwa [String.toList_ofList])
        (mt String.ofList_eq_empty_iff.1 hfield), hline⟩
    case h_2 =>
      split at h
      case h_1 name hname =>
        split at h
        · cases h
        · rename_i hempty
          obtain rfl := Option.some.inj h
          have htoken : token = "$" ++ String.ofList name := by
            rw [← String.toList_inj, toList_exported, String.toList_ofList]
            exact hname
          rw [htoken]
          exact ⟨.exported (by simpa using hempty), trivial⟩
      case h_2 => cases h

/-- **Reading.** The reader finds what a token spells on one line. -/
theorem parse?_eq_some : parse? token = some r ↔ Spells token r ∧ r.OnOneLine := by
  refine ⟨spells_of_parse?, ?_⟩
  rintro ⟨hspells, hline⟩
  cases hspells with
  | alert hkey => exact parse?_alert hkey
  | output hnode hdollar hfield =>
    exact parse?_output hnode hdollar hfield (onOneLine_ofName.1 hline)
  | exported hname => exact parse?_exported hname

/-- A second `$` belongs to the field. -/
example : parse? "@node:a$b$c" = some (.output "a" (.named "b$c")) := by decide +kernel

theorem eq_of_parse?_exported (h : parse? token = some (.exported name)) : token = "$" ++ name := by
  obtain ⟨hspells, -⟩ := parse?_eq_some.1 h
  cases hspells
  rfl

/-- A token is read as the reference that a grammar has for it, or not at all if it has none. -/
structure Follows (grammar : String → Reference → Prop) (token : String) : Prop where
  some_iff : ∀ r, parse? token = some r ↔ grammar token r
  none_iff : parse? token = none ↔ ∀ r, ¬ grammar token r

theorem follows_of_some_iff {grammar : String → Reference → Prop}
    (h : ∀ r, parse? token = some r ↔ grammar token r) : Follows grammar token where
  some_iff := h
  none_iff := by
    rw [Option.eq_none_iff_forall_ne_some]
    exact forall_congr' fun r => not_congr (h r)

/-- **References.** A token is read as what it spells, unless that has a field that goes over
    several lines: such a token is not read at all. -/
theorem follows_iff (token : String) :
    (Follows Spells token ↔ ∀ r, Spells token r → r.OnOneLine) ∧
      Follows (fun token r => Spells token r ∧ r.OnOneLine) token := by
  refine ⟨⟨fun h r hspells => ?_, fun h => follows_of_some_iff fun r => ?_⟩,
    follows_of_some_iff fun r => parse?_eq_some⟩
  · exact (parse?_eq_some.1 ((h.some_iff r).2 hspells)).2
  · rw [parse?_eq_some]
    exact and_iff_left_of_imp (h r)

/-- A field that goes over two lines is in the grammar, but is not read. -/
theorem not_follows_twoLines : ¬ Follows Spells "@node:a$b\nc" ∧
    Spells "@node:a$b\nc" (.output "a" (.named "b\nc")) ∧ parse? "@node:a$b\nc" = none := by
  have hspells : Spells "@node:a$b\nc" (.output "a" (.named "b\nc")) :=
    @Spells.output "a" "b\nc" (by decide) (by decide) (by decide)
  have hread : parse? "@node:a$b\nc" = none := by decide +kernel
  refine ⟨fun h => ?_, hspells, hread⟩
  have hsome := (h.some_iff _).2 hspells
  rw [hread] at hsome
  cases hsome

/-! ### Writing -/

theorem text_ofName (node field : String) :
    (output node (.ofName field)).text = "@node:" ++ node ++ "$" ++ field := by
  unfold OutputField.ofName
  split
  · rename_i hraw
    rw [hraw]
    rfl
  · rfl

/-- **Writing.** The tokens of the grammar are the texts of well-formed references. -/
theorem spells_iff : Spells token r ↔ r.WellFormed ∧ token = r.text := by
  constructor
  · intro h
    cases h with
    | alert hkey => exact ⟨hkey, rfl⟩
    | @output node field hnode hdollar hfield =>
      refine ⟨?_, (text_ofName node field).symm⟩
      unfold OutputField.ofName
      split
      · exact ⟨hnode, hdollar⟩
      · rename_i hname
        exact ⟨hnode, hdollar, hfield, hname⟩
    | exported hname => exact ⟨hname, rfl⟩
  · rintro ⟨hr, rfl⟩
    match r, hr with
    | .alert key, hkey => exact .alert hkey
    | .exported name, hname => exact .exported hname
    | .output node .raw, ⟨hnode, hdollar⟩ => exact .output hnode hdollar (by decide)
    | .output node (.named name), ⟨hnode, hdollar, hname, hraw⟩ =>
      have hfield : OutputField.named name = .ofName name := (if_neg hraw).symm
      rw [hfield, text_ofName]
      exact .output hnode hdollar hname

/-- A token that spells a reference is one that has to be looked up. -/
theorem Spells.needsLookup (h : Spells token r) : needsLookup token = true := by
  unfold Reference.needsLookup
  cases h with
  | alert => rw [toList_alert]; rfl
  | output => rw [toList_output]; rfl
  | exported => rw [toList_exported]; rfl

/-- Which references survive being written and read. -/
theorem parse?_text : parse? r.text = some r ↔ r.WellFormed ∧ r.OnOneLine := by
  rw [parse?_eq_some, spells_iff]
  simp only [and_true]

/-- What reading and writing references say of each other. -/
structure RoundTrips (parse : String → Option Reference) (text : Reference → String) : Prop where
  /-- What is read is written as it was. -/
  text_eq : ∀ token r, parse token = some r → text r = token
  lookedUp : ∀ token r, parse token = some r → needsLookup token = true
  /-- No two tokens are read as the same reference. -/
  injective : ∀ token token' r, parse token = some r → parse token' = some r → token = token'
  /-- What is read once is read again from its text, -/
  again : ∀ token r, parse token = some r → parse (text r) = some r
  /-- and these are the well-formed references without a field that goes over several lines. -/
  image : ∀ r, parse (text r) = some r ↔ r.WellFormed ∧ r.OnOneLine
  /-- A field that is named like the whole payload is not read back as such a field, -/
  raw : ∀ node, parse (text (.output node (.named "raw"))) ≠ some (.output node (.named "raw"))
  /-- and an identifier with a `$` is not read back as it is. -/
  dollar : ∀ node field, '$' ∈ node.toList →
    parse (text (.output node field)) ≠ some (.output node field)

/-- **Round trips.** Whatever is read is written as it was, and what is written is read as it was if
    it is well formed and no field goes over several lines. -/
theorem roundTrips_parse : RoundTrips parse? text := by
  have htext : ∀ token r, parse? token = some r → r.text = token := fun token r h =>
    (spells_iff.1 (parse?_eq_some.1 h).1).2.symm
  refine ⟨htext, ?lookedUp, ?injective, ?again, fun r => parse?_text, ?raw, ?dollar⟩
  case lookedUp => exact fun token r h => (parse?_eq_some.1 h).1.needsLookup
  case injective =>
    intro token token' r h h'
    rw [← htext token r h, htext token' r h']
  case again =>
    intro token r h
    rwa [htext token r h]
  case raw =>
    intro node h
    obtain ⟨⟨-, -, -, hname⟩, -⟩ := parse?_text.1 h
    exact hname rfl
  case dollar =>
    intro node field hdollar h
    have hr := (parse?_text.1 h).1
    cases field with
    | raw => exact hr.2 hdollar
    | named name => exact hr.2.1 hdollar

end Reference

end Runbook
