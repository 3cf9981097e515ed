/-!
# Blank characters

A character is blank when Unicode gives it the property `White_Space`. `trim` removes blank
characters from both ends of a text; a text is blank when nothing is left of it.
-/

namespace Runbook.Text

/-- The ranges of the property `White_Space`, both ends included. -/
def blankRanges : List (Nat × Nat) :=
  [(0x9, 0xD), (0x20, 0x20), (0x85, 0x85), (0xA0, 0xA0), (0x1680, 0x1680), (0x2000, 0x200A),
    (0x2028, 0x2029), (0x202F, 0x202F), (0x205F, 0x205F), (0x3000, 0x3000)]

def isBlank (c : Char) : Bool :=
  blankRanges.any fun r => decide (r.1 ≤ c.toNat) && decide (c.toNat ≤ r.2)

/-! ### Trimming -/

def trimLeftChars (cs : List Char) : List Char := cs.dropWhile isBlank

def trimRightChars (cs : List Char) : List Char := (cs.reverse.dropWhile isBlank).reverse

def trimChars (cs : List Char) : List Char := trimRightChars (trimLeftChars cs)

/-- The text without the blank characters at its two ends. -/
def trim (s : String) : String := String.ofList (trimChars s.toList)

/-- Whether a text has no character that is not blank. -/
def isBlankText (s : String) : Bool := s.toList.all isBlank

/-! ### Trimmed texts -/

/-- A text that does not begin with a blank is not cut at its beginning. -/
theorem trimLeftChars_eq_self {cs : List Char} (h : ∀ c, cs.head? = some c → isBlank c = false) :
    trimLeftChars cs = cs := by
  cases cs with
  | nil => rfl
  | cons c cs => exact List.dropWhile_cons_of_neg (by simp [h c rfl])

theorem isBlank_head?_trimLeftChars {cs : List Char} {c : Char}
    (h : (trimLeftChars cs).head? = some c) : isBlank c = false := by
  have hhead := List.head?_dropWhile_not isBlank cs
  rw [trimLeftChars] at h
  rw [h] at hhead
  exact hhead

theorem trimLeftChars_trimLeftChars (cs : List Char) :
    trimLeftChars (trimLeftChars cs) = trimLeftChars cs :=
  trimLeftChars_eq_self fun _ => isBlank_head?_trimLeftChars

theorem trimRightChars_trimRightChars (cs : List Char) :
    trimRightChars (trimRightChars cs) = trimRightChars cs := by
  have h := trimLeftChars_trimLeftChars cs.reverse
  rw [trimLeftChars, trimLeftChars] at h
  rw [trimRightChars, trimRightChars, List.reverse_reverse, h]

/-- A trimmed text does not begin with a blank. -/
theorem trimLeftChars_trimChars (cs : List Char) : trimLeftChars (trimChars cs) = trimChars cs := by
  -- Cutting the end leaves the beginning as it is.
  have hprefix : trimChars cs <+: trimLeftChars cs := by
    rw [trimChars, trimRightChars, ← List.reverse_suffix, List.reverse_reverse]
    exact List.dropWhile_suffix _
  obtain ⟨rest, hrest⟩ := hprefix
  refine trimLeftChars_eq_self fun c hc => ?_
  have hhead : (trimLeftChars cs).head? = some c := by
    rw [← hrest, List.head?_append, hc]
    rfl
  exact isBlank_head?_trimLeftChars hhead

theorem trimChars_trimChars (cs : List Char) : trimChars (trimChars cs) = trimChars cs := by
  rw [trimChars, trimLeftChars_trimChars, trimChars, trimRightChars_trimRightChars]

@[simp]
theorem trim_trim (s : String) : trim (trim s) = trim s := by
  rw [trim, trim, String.toList_ofList, trimChars_trimChars]

/-- A text without blanks stays as it is. -/
theorem trim_eq_self {s : String} (h : ∀ c ∈ s.toList, isBlank c = false) : trim s = s := by
  have hleft : trimLeftChars s.toList = s.toList :=
    trimLeftChars_eq_self fun c hc => h c (List.mem_of_mem_head? hc)
  have hright : trimLeftChars s.toList.reverse = s.toList.reverse :=
    trimLeftChars_eq_self fun c hc => h c (List.mem_reverse.1 (List.mem_of_mem_head? hc))
  rw [trimLeftChars] at hright
  rw [trim, trimChars, hleft, trimRightChars, hright, List.reverse_reverse, String.ofList_toList]

theorem trimLeftChars_eq_nil {cs : List Char} :
    trimLeftChars cs = [] ↔ cs.all isBlank = true := by
  induction cs with
  | nil => simp [trimLeftChars]
  | cons c cs ih =>
    cases hc : isBlank c with
    | true =>
      rw [trimLeftChars, List.dropWhile_cons_of_pos hc, List.all_cons, hc, Bool.true_and]
      exact ih
    | false => simp [trimLeftChars, hc]

/-- What is not blank does not become blank. -/
theorem isBlankText_trim (s : String) : isBlankText (trim s) = isBlankText s := by
  rw [isBlankText, isBlankText, Bool.eq_iff_iff, ← trimLeftChars_eq_nil, ← trimLeftChars_eq_nil,
    trim, String.toList_ofList, trimLeftChars_trimChars, trimChars, trimRightChars,
    List.reverse_eq_nil_iff, ← trimLeftChars, trimLeftChars_eq_nil, List.all_reverse,
    ← trimLeftChars_eq_nil, trimLeftChars_trimLeftChars]

/-- Nothing is left of a blank text, and only of a blank text. -/
theorem isEmpty_trim (s : String) : (trim s).isEmpty = isBlankText s := by
  rw [Bool.eq_iff_iff, ← isBlankText_trim, isBlankText, ← trimLeftChars_eq_nil,
    String.isEmpty_iff, ← String.toList_inj, trim, String.toList_ofList, trimLeftChars_trimChars]
  rfl

end Runbook.Text
