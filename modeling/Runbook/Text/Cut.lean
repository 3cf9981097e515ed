/-!
# Cutting texts apart

Characters are handled as lists. `cutAt` cuts at the first place where a separator occurs,
`split` at all places where a character occurs, and `dropPrefix?` takes a fixed beginning away.

* `cutAt_eq_some` : the parts and the separator make up the whole.
* `length_after_lt` : what stands after a separator is shorter than the whole.
-/

namespace Runbook.Text

/-- The rest of `cs` after the beginning `p`, when `cs` begins with `p`. -/
def dropPrefix? (p cs : List Char) : Option (List Char) :=
  if p.isPrefixOf cs then some (cs.drop p.length) else none

/-- What stands before and after the first occurrence of `sep`. -/
def cutAt (sep : List Char) : List Char → Option (List Char × List Char)
  | [] => if sep.isEmpty then some ([], []) else none
  | c :: cs =>
    match dropPrefix? sep (c :: cs) with
    | some rest => some ([], rest)
    | none => (cutAt sep cs).map fun parts => (c :: parts.1, parts.2)

theorem dropPrefix?_eq_some {p cs rest : List Char} :
    dropPrefix? p cs = some rest ↔ cs = p ++ rest := by
  simp only [dropPrefix?]
  constructor
  · intro h
    split at h
    · rename_i hp
      obtain ⟨t, rfl⟩ := List.isPrefixOf_iff_prefix.1 hp
      simp at h
      simp [h]
    · simp at h
  · rintro rfl
    simp [List.isPrefixOf_iff_prefix.2 (List.prefix_append p rest)]

theorem cutAt_eq_some {sep cs before after : List Char} (h : cutAt sep cs = some (before, after)) :
    cs = before ++ sep ++ after := by
  induction cs generalizing before with
  | nil =>
    simp only [cutAt] at h
    split at h
    · rename_i hs
      simp only [Option.some.injEq, Prod.mk.injEq] at h
      simp [← h.1, ← h.2, List.isEmpty_iff.1 hs]
    · simp at h
  | cons c cs ih =>
    simp only [cutAt] at h
    split at h
    · rename_i rest hr
      simp only [Option.some.injEq, Prod.mk.injEq] at h
      simp [← h.1, ← h.2, dropPrefix?_eq_some.1 hr]
    · obtain ⟨⟨b, a⟩, hb, he⟩ := Option.map_eq_some_iff.1 h
      simp only [Prod.mk.injEq] at he
      obtain ⟨rfl, rfl⟩ := he
      simp [ih hb]

/-- What stands after a separator that is not empty is shorter than the whole. -/
theorem length_after_lt {sep cs before after : List Char} (hs : sep ≠ [])
    (h : cutAt sep cs = some (before, after)) : after.length < cs.length := by
  have := cutAt_eq_some h
  subst this
  have : 0 < sep.length := List.length_pos_iff.2 hs
  simp only [List.length_append]
  omega

/-- The parts between the occurrences of a character, at least one. -/
def split (sep : Char) : List Char → List (List Char)
  | [] => [[]]
  | c :: cs =>
    if c == sep then [] :: split sep cs
    else
      match split sep cs with
      | part :: rest => (c :: part) :: rest
      | [] => [[c]]

/-! ### Joining -/

/-- The texts with `sep` between neighbours. -/
def join (sep : String) : List String → String
  | [] => ""
  | [s] => s
  | s :: rest => s ++ sep ++ join sep rest

end Runbook.Text
