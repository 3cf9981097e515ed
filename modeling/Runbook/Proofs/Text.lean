import Mathlib.Data.List.Infix
import Runbook.Text.Blank
import Runbook.Text.Cut

namespace Runbook.Text

/-!
# Texts — blanks around them, and separators in them

Both operations that take a text apart say what they leave behind: trimming leaves the blanks at the
two ends, and cutting leaves the separator.

* `exists_trimChars` — a text is its trimmed text with blanks around it;
* `trimChars_pad` — blanks around a text make no difference to its trimmed text;
* `isSome_cutAt` — a text is cut where the separator occurs, if it does;
* `not_infix_of_cutAt` — the separator does not occur before the cut;
* `cutAt_append` — where the text before the separator does not have its first character, the cut is
  there;
* `cutAt_pair` — the same where the text does not have a separator of two different characters;
* `toString_int_inj` — the digits of an integer, with its sign, are those of no other.
-/

/-! ### Blanks around a text -/

/-- Blanks before a text are cut off with the blanks that it begins with. -/
theorem trimLeftChars_append {w : List Char} (hw : w.all isBlank = true) (cs : List Char) :
    trimLeftChars (w ++ cs) = trimLeftChars cs := by
  rw [trimLeftChars, trimLeftChars, List.dropWhile_append, ← trimLeftChars,
    trimLeftChars_eq_nil.2 hw]
  rfl

/-- Blanks after a text are cut off with the blanks that it ends with. -/
theorem trimRightChars_append {w : List Char} (hw : w.all isBlank = true) (cs : List Char) :
    trimRightChars (cs ++ w) = trimRightChars cs := by
  have hreverse : w.reverse.all isBlank = true := by simpa using hw
  rw [trimRightChars, trimRightChars, List.reverse_append, ← trimLeftChars,
    trimLeftChars_append hreverse, trimLeftChars]

theorem trimChars_eq_nil {cs : List Char} : trimChars cs = [] ↔ cs.all isBlank = true := by
  have h := isEmpty_trim (String.ofList cs)
  rwa [Bool.eq_iff_iff, String.isEmpty_iff, ← String.toList_inj, trim, isBlankText,
    String.toList_ofList, String.toList_ofList] at h

/-- **Padding.** Blanks around a text make no difference to its trimmed text. -/
theorem trimChars_pad {w w' : List Char} (hw : w.all isBlank = true) (hw' : w'.all isBlank = true)
    (cs : List Char) : trimChars (w ++ cs ++ w') = trimChars cs := by
  by_cases hcs : cs.all isBlank = true
  · -- A blank text is blank with blanks around it.
    have hall : (w ++ cs ++ w').all isBlank = true := by simp_all
    rw [trimChars_eq_nil.2 hall, trimChars_eq_nil.2 hcs]
  · have hleft : trimLeftChars (cs ++ w') = trimLeftChars cs ++ w' := by
      have hne : (cs.dropWhile isBlank).isEmpty = false := by
        rw [← trimLeftChars]
        simpa [trimLeftChars_eq_nil] using hcs
      rw [trimLeftChars, List.dropWhile_append, hne, ← trimLeftChars]
      rfl
    rw [trimChars, List.append_assoc, trimLeftChars_append hw, hleft, trimRightChars_append hw',
      trimChars]

/-- **Trimming.** Nothing but blanks is lost. -/
theorem exists_trimChars (cs : List Char) :
    ∃ w w', w.all isBlank = true ∧ w'.all isBlank = true ∧ cs = w ++ trimChars cs ++ w' := by
  refine ⟨cs.takeWhile isBlank, ((trimLeftChars cs).reverse.takeWhile isBlank).reverse,
    List.all_takeWhile, by rw [List.all_reverse, List.all_takeWhile], ?_⟩
  have hright : trimLeftChars cs =
      trimChars cs ++ ((trimLeftChars cs).reverse.takeWhile isBlank).reverse := by
    rw [trimChars, trimRightChars, ← List.reverse_append, List.takeWhile_append_dropWhile,
      List.reverse_reverse]
  rw [List.append_assoc, ← hright, trimLeftChars, List.takeWhile_append_dropWhile]

/-! ### Separators in a text -/

variable {sep cs before after : List Char}

theorem dropPrefix?_eq_none : dropPrefix? sep cs = none ↔ ¬ sep <+: cs := by
  rw [dropPrefix?, ← List.isPrefixOf_iff_prefix]
  by_cases h : sep.isPrefixOf cs <;> simp [h]

theorem isSome_cutAt : (cutAt sep cs).isSome = true ↔ sep <:+: cs := by
  induction cs with
  | nil => cases sep <;> simp [cutAt]
  | cons c cs ih =>
    rw [cutAt, List.infix_cons_iff]
    cases h : dropPrefix? sep (c :: cs) with
    | some rest => simpa using .inl ⟨rest, (dropPrefix?_eq_some.1 h).symm⟩
    | none => simpa [dropPrefix?_eq_none.1 h] using ih

theorem cutAt_eq_none : cutAt sep cs = none ↔ ¬ sep <:+: cs := by
  rw [← isSome_cutAt]
  cases cutAt sep cs <;> simp

/-- **The first cut.** A separator does not occur in what stands before the cut. -/
theorem not_infix_of_cutAt (hsep : sep ≠ []) (h : cutAt sep cs = some (before, after)) :
    ¬ sep <:+: before := by
  induction cs generalizing before with
  | nil =>
    have hnil := cutAt_eq_some h
    simp_all
  | cons c cs ih =>
    rw [cutAt] at h
    cases hdrop : dropPrefix? sep (c :: cs) with
    | some rest =>
      rw [hdrop] at h
      obtain ⟨rfl, -⟩ := Prod.mk.inj (Option.some.inj h)
      simpa using hsep
    | none =>
      rw [hdrop] at h
      obtain ⟨⟨b, a⟩, hcut, heq⟩ := Option.map_eq_some_iff.1 h
      obtain ⟨rfl, rfl⟩ := Prod.mk.inj heq
      rw [List.infix_cons_iff]
      rintro (hpre | hinfix)
      · -- The text would begin with the separator, and the cut would be there.
        have hbegins : c :: b <+: c :: cs := by
          rw [cutAt_eq_some hcut, List.append_assoc]
          exact List.prefix_append (c :: b) _
        exact dropPrefix?_eq_none.1 hdrop (hpre.trans hbegins)
      · exact ih hcut hinfix

/-- A text is cut where the first character of the separator occurs for the first time, if the
    separator stands there. -/
theorem cutAt_append {c : Char} (h : c ∉ before) :
    cutAt (c :: sep) (before ++ (c :: sep) ++ after) = some (before, after) := by
  induction before with
  | nil =>
    have hdrop : dropPrefix? (c :: sep) (c :: (sep ++ after)) = some after :=
      dropPrefix?_eq_some.2 rfl
    rw [List.nil_append, List.cons_append, cutAt, hdrop]
  | cons b before ih =>
    rw [List.mem_cons, not_or] at h
    have hdrop : dropPrefix? (c :: sep) (b :: (before ++ (c :: sep) ++ after)) = none := by
      rw [dropPrefix?_eq_none, List.cons_prefix_cons]
      exact fun hpre => h.1 hpre.1
    rw [List.cons_append, List.cons_append, cutAt, hdrop, ih h.2]
    rfl

/-- Of two texts that go on with the same pair of different characters, and that do not contain it
    before, none is longer. -/
theorem eq_nil_of_pair {a b : Char} (hab : a ≠ b) {between after' : List Char}
    (h : ¬ [a, b] <:+: before ++ between)
    (heq : [a, b] ++ after = between ++ ([a, b] ++ after')) : between = [] := by
  match between with
  | [] => rfl
  | [c] =>
    simp only [List.cons_append, List.nil_append, List.cons.injEq] at heq
    exact absurd heq.2.1.symm hab
  | c :: d :: between =>
    simp only [List.cons_append, List.nil_append, List.cons.injEq] at heq
    obtain ⟨rfl, rfl, -⟩ := heq
    exact absurd ⟨before, between, by simp⟩ h

/-- Two different characters that follow each other are found where they stand first. -/
theorem cutAt_pair {a b : Char} (hab : a ≠ b) (h : ¬ [a, b] <:+: before) :
    cutAt [a, b] (before ++ [a, b] ++ after) = some (before, after) := by
  have hsome : (cutAt [a, b] (before ++ [a, b] ++ after)).isSome = true :=
    isSome_cutAt.2 ⟨before, after, rfl⟩
  obtain ⟨⟨x, y⟩, hcut⟩ := Option.isSome_iff_exists.1 hsome
  have hx : ¬ [a, b] <:+: x := not_infix_of_cutAt (List.cons_ne_nil a [b]) hcut
  have heq := cutAt_eq_some hcut
  rw [List.append_assoc, List.append_assoc] at heq
  have hsame : before = x := by
    rcases List.append_eq_append_iff.1 heq with ⟨between, rfl, hrest⟩ | ⟨between, rfl, hrest⟩
    · rw [eq_nil_of_pair hab hx hrest, List.append_nil]
    · rw [eq_nil_of_pair hab h hrest, List.append_nil]
  subst hsame
  rw [hcut, List.append_cancel_left (List.append_cancel_left heq)]

/-! ### Digits of integers -/

theorem toList_natural (n : Nat) : (toString (Int.ofNat n)).toList = Nat.toDigits 10 n := by
  show (Nat.repr n).toList = _
  rw [Nat.repr_eq_ofList_toDigits, String.toList_ofList]

theorem toList_negative (n : Nat) :
    (toString (Int.negSucc n)).toList = '-' :: Nat.toDigits 10 (n + 1) := by
  show ("-" ++ Nat.repr (n + 1)).toList = _
  rw [String.toList_append, Nat.repr_eq_ofList_toDigits]
  exact congrArg ('-' :: ·) String.toList_ofList

theorem toDigits_inj {n k : Nat} (h : Nat.toDigits 10 n = Nat.toDigits 10 k) : n = k := by
  have hread := congrArg (fun cs => Nat.ofDigitChars 10 cs 0) h
  simpa only [Nat.ofDigitChars_ten_toDigits] using hread

/-- A sign is no digit. -/
theorem toDigits_ne_negative (n k : Nat) : Nat.toDigits 10 n ≠ '-' :: Nat.toDigits 10 k := by
  intro h
  have hsign : '-' ∈ Nat.toDigits 10 n := h ▸ List.mem_cons_self
  exact absurd (Nat.isDigit_of_mem_toDigits (by decide) (by decide) hsign) (by decide)

/-- **Digits.** Different integers have different digits. -/
theorem toString_int_inj {n k : Int} (h : toString n = toString k) : n = k := by
  have hchars := congrArg String.toList h
  cases n with
  | ofNat n =>
    cases k with
    | ofNat k =>
      rw [toList_natural, toList_natural] at hchars
      rw [toDigits_inj hchars]
    | negSucc k =>
      rw [toList_natural, toList_negative] at hchars
      exact absurd hchars (toDigits_ne_negative n _)
  | negSucc n =>
    cases k with
    | ofNat k =>
      rw [toList_natural, toList_negative] at hchars
      exact absurd hchars.symm (toDigits_ne_negative k _)
    | negSucc k =>
      rw [toList_negative, toList_negative] at hchars
      rw [Nat.succ.inj (toDigits_inj (List.cons.inj hchars).2)]

end Runbook.Text
