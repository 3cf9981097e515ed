import Mathlib.Data.Nat.Digits.Defs
import Runbook.Condition

namespace Runbook

/-!
# Conditions — comparing two texts

Two texts that denote integers compare as these; any others compare for equality only, as they
stand.  So that one text can be compared both ways, what must be shown is that the two ways agree.

* `Text.Denotes` — the integer that a text denotes, by the value of its digits;
* `Text.int64?_eq_some` — the reader of integers finds just these;
* `Operator.holds_eq` — equality is that of what the texts stand for;
* `Operator.holds_ordering` — an ordering has an answer where both texts denote integers;
* `Operator.lawful_holds` — the laws that the answers keep.
-/

/-! ### Numerals -/

namespace Text

/-- The digits of a number, of which the list has the last one first. -/
def numeral (digits : List Nat) : List Char := digits.reverse.map Nat.digitChar

/-- The value of these digits. -/
def numeralValue (digits : List Nat) : Nat := Nat.ofDigits 10 digits

/-- The integers that a sign and the digits of a number are written for. -/
inductive IsNumeral : List Char → Int → Prop
  | unsigned {digits : List Nat} : digits ≠ [] → (∀ d ∈ digits, d < 10) →
      IsNumeral (numeral digits) (numeralValue digits)
  | plus {digits : List Nat} : digits ≠ [] → (∀ d ∈ digits, d < 10) →
      IsNumeral ('+' :: numeral digits) (numeralValue digits)
  | minus {digits : List Nat} : digits ≠ [] → (∀ d ∈ digits, d < 10) →
      IsNumeral ('-' :: numeral digits) (-numeralValue digits)

/-- The integer that a text denotes: one of 64 bits. -/
def Denotes (s : String) (n : Int) : Prop :=
  IsNumeral s.toList n ∧ -2 ^ 63 ≤ n ∧ n ≤ 2 ^ 63 - 1

variable {cs : List Char} {n : Int}

theorem digitValue_digitChar {d : Nat} (h : d < 10) : digitValue d.digitChar = d := by
  rw [digitValue, Nat.toNat_digitChar_of_lt_ten h]
  exact Nat.add_sub_cancel_left 48 d

theorem digitValue_lt {c : Char} (h : c.isDigit = true) : digitValue c < 10 := by
  have hle : c.toNat ≤ 57 := (Char.isDigit_iff_toNat.1 h).2
  have hzero : '0'.toNat = 48 := rfl
  rw [digitValue]
  omega

theorem digitChar_digitValue {c : Char} (h : c.isDigit = true) : (digitValue c).digitChar = c := by
  have hge : 48 ≤ c.toNat := (Char.isDigit_iff_toNat.1 h).1
  have hzero : '0'.toNat = 48 := rfl
  refine Char.toNat_inj.1 ?_
  rw [Nat.toNat_digitChar_of_lt_ten (digitValue_lt h), digitValue]
  omega

/-- The value of a list of digits is that of their values, of which the last one counts least. -/
theorem digitsValue_eq (cs : List Char) :
    digitsValue cs = numeralValue (cs.map digitValue).reverse := by
  rw [numeralValue, Nat.ofDigits_eq_foldr, List.foldr_reverse, List.foldl_map, digitsValue]
  congr 1
  funext n c
  simp only [Nat.cast_id]
  omega

/-- A list of digits is the numeral of their values. -/
theorem numeral_digitValue (h : ∀ c ∈ cs, c.isDigit = true) :
    numeral (cs.map digitValue).reverse = cs := by
  rw [numeral, List.reverse_reverse, List.map_map]
  refine (List.map_congr_left fun c hc => ?_).trans (List.map_id cs)
  exact digitChar_digitValue (h c hc)

section Digits

variable {digits : List Nat} (h : ∀ d ∈ digits, d < 10)
include h

theorem isDigit_numeral : ∀ c ∈ numeral digits, c.isDigit = true := by
  intro c hc
  obtain ⟨d, hd, rfl⟩ := List.mem_map.1 hc
  rw [Nat.isDigit_digitChar, decide_eq_true_eq]
  exact h d (List.mem_reverse.1 hd)

theorem digitsValue_numeral : digitsValue (numeral digits) = numeralValue digits := by
  have hvalues : digits.reverse.map (digitValue ∘ Nat.digitChar) = digits.reverse := by
    refine (List.map_congr_left fun d hd => ?_).trans (List.map_id _)
    exact digitValue_digitChar (h d (List.mem_reverse.1 hd))
  rw [digitsValue_eq, numeral, List.map_map, hvalues, List.reverse_reverse]

end Digits

/-- A natural number is read from its digits. -/
theorem natural?_eq_some {m : Nat} : natural? cs = some m ↔
    ∃ digits, digits ≠ [] ∧ (∀ d ∈ digits, d < 10) ∧ cs = numeral digits ∧
      m = numeralValue digits := by
  have hread : natural? cs = some m ↔
      cs ≠ [] ∧ (∀ c ∈ cs, c.isDigit = true) ∧ digitsValue cs = m := by
    simp [natural?, and_assoc]
  rw [hread]
  constructor
  · rintro ⟨hne, hdigits, rfl⟩
    refine ⟨(cs.map digitValue).reverse, by simpa using hne, ?_, (numeral_digitValue hdigits).symm,
      digitsValue_eq cs⟩
    intro d hd
    obtain ⟨c, hc, rfl⟩ := List.mem_map.1 (List.mem_reverse.1 hd)
    exact digitValue_lt (hdigits c hc)
  · rintro ⟨digits, hne, hlt, rfl, rfl⟩
    exact ⟨by simpa [numeral] using hne, isDigit_numeral hlt, digitsValue_numeral hlt⟩

/-- **Numerals.** An integer is read from its numeral, with or without a sign. -/
theorem integer?_eq_some : integer? cs = some n ↔ IsNumeral cs n := by
  constructor
  · intro h
    rw [integer?.eq_def] at h
    split at h
    case h_1 cs =>
      obtain ⟨m, hm, rfl⟩ := Option.map_eq_some_iff.1 h
      obtain ⟨digits, hne, hlt, rfl, rfl⟩ := natural?_eq_some.1 hm
      exact .plus hne hlt
    case h_2 cs =>
      obtain ⟨_, hcast, rfl⟩ := Option.map_eq_some_iff.1 h
      obtain ⟨m, hm, hpure⟩ := Option.bind_eq_some_iff.1 hcast
      obtain ⟨digits, hne, hlt, rfl, rfl⟩ := natural?_eq_some.1 hm
      cases hpure
      exact .minus hne hlt
    case h_3 =>
      obtain ⟨m, hm, rfl⟩ := Option.map_eq_some_iff.1 h
      obtain ⟨digits, hne, hlt, rfl, rfl⟩ := natural?_eq_some.1 hm
      exact .unsigned hne hlt
  · intro h
    cases h with
    | plus hne hlt => rw [integer?, natural?_eq_some.2 ⟨_, hne, hlt, rfl, rfl⟩]; rfl
    | minus hne hlt => rw [integer?, natural?_eq_some.2 ⟨_, hne, hlt, rfl, rfl⟩]; rfl
    | @unsigned digits hne hlt =>
      -- No digit is a sign.
      have hsign : ∀ c ∈ numeral digits, c ≠ '+' ∧ c ≠ '-' := by
        intro c hc
        constructor <;> rintro rfl <;> exact absurd (isDigit_numeral hlt _ hc) (by decide)
      rw [integer?.eq_3, natural?_eq_some.2 ⟨_, hne, hlt, rfl, rfl⟩]
      · rfl
      · intro cs heq
        exact (hsign '+' (by simp [heq])).1 rfl
      · intro cs heq
        exact (hsign '-' (by simp [heq])).2 rfl

/-- **Integers.** An integer is read from the texts that denote it. -/
theorem int64?_eq_some {s : String} : int64? s = some n ↔ Denotes s n := by
  rw [int64?, Option.filter_eq_some_iff, integer?_eq_some, Denotes, Bool.and_eq_true,
    decide_eq_true_eq, decide_eq_true_eq]
  rfl

end Text

namespace Operator

/-! ### Comparing -/

/-- What an operator says of two integers. -/
def Relates : Operator → Int → Int → Prop
  | eq, a, b => a = b
  | ne, a, b => a ≠ b
  | ge, a, b => a ≥ b
  | le, a, b => a ≤ b
  | gt, a, b => a > b
  | lt, a, b => a < b

theorem onInts_eq_true {op : Operator} {a b : Int} : op.onInts a b = true ↔ op.Relates a b := by
  cases op <;> exact decide_eq_true_iff

/-- The operators that ask which of two integers is the greater one. -/
def orderings : List Operator := [ge, le, gt, lt]

/-- The operator that says the same with its operands the other way round. -/
def mirror : Operator → Operator
  | eq => eq
  | ne => ne
  | ge => le
  | le => ge
  | gt => lt
  | lt => gt

/-- What a text stands for when it is compared: an integer or itself. -/
def meaning (s : String) : Int ⊕ String :=
  match Text.int64? s with
  | some n => .inl n
  | none => .inr s

/-- **Equality.** Texts are equal that stand for the same. -/
theorem holds_eq (l r : String) : eq.holds l r = .ok (decide (meaning l = meaning r)) := by
  rw [holds.eq_def, meaning, meaning]
  cases hl : Text.int64? l <;> cases hr : Text.int64? r
  case some.some => simp [onInts]
  case none.none => simp
  -- A text that denotes an integer is not the same as one that does not.
  all_goals
    have hne : l ≠ r := fun heq => by simp_all
    simp [hne]

theorem holds_ne (l r : String) : ne.holds l r = .ok (decide (meaning l ≠ meaning r)) := by
  have hmap : ne.holds l r = (eq.holds l r).map not := by
    rw [holds.eq_def, holds.eq_def]
    cases Text.int64? l <;> cases Text.int64? r <;> simp [onInts, Except.map]
  rw [hmap, holds_eq, decide_not]
  rfl

/-- **Orderings.** An ordering has an answer where both texts denote integers. -/
theorem holds_ordering {op : Operator} (h : op ∈ orderings) (l r : String) :
    op.holds l r =
      match Text.int64? l, Text.int64? r with
      | some a, some b => .ok (op.onInts a b)
      | _, _ => .error (.unsupported op l r) := by
  rw [holds.eq_def]
  cases op with
  | eq | ne => exact absurd h (by decide)
  | ge | le | gt | lt => rfl

theorem holds_ordering_eq_ok {op : Operator} (h : op ∈ orderings) {l r : String} {t : Bool} :
    op.holds l r = .ok t ↔
      ∃ a b, Text.int64? l = some a ∧ Text.int64? r = some b ∧ op.onInts a b = t := by
  rw [holds_ordering h]
  cases Text.int64? l <;> cases Text.int64? r <;> simp

theorem holds_le {l r : String} : le.holds l r = .ok true ↔
    ∃ a b, Text.int64? l = some a ∧ Text.int64? r = some b ∧ a ≤ b := by
  have hle : le ∈ orderings := by decide
  simp only [holds_ordering_eq_ok hle, onInts_eq_true, Relates]

/-! ### The laws -/

/-- The laws of comparing texts. -/
structure Lawful (holds : Operator → String → String → Except EvalError Bool) : Prop where
  /-- Texts that denote integers compare as these. -/
  integers : ∀ op l r a b, Text.Denotes l a → Text.Denotes r b →
    ∃ t, holds op l r = .ok t ∧ (t = true ↔ op.Relates a b)
  /-- Any others are equal if they are the same, and are not ordered. -/
  texts : ∀ l r, ¬ ((∃ a, Text.Denotes l a) ∧ ∃ b, Text.Denotes r b) →
    holds .eq l r = .ok (decide (l = r)) ∧ holds .ne l r = .ok (decide (l ≠ r)) ∧
      ∀ op ∈ orderings, holds op l r = .error (.unsupported op l r)
  equivalence : Equivalence fun l r => holds .eq l r = .ok true
  negation : ∀ l r, ∃ t, holds .eq l r = .ok t ∧ holds .ne l r = .ok !t
  /-- Texts that one operator orders are ordered by all of them, both ways round. -/
  ordered : ∀ op ∈ orderings, ∀ op' ∈ orderings, ∀ l r,
    (∃ t, holds op l r = .ok t) → ∃ t, holds op' r l = .ok t
  refl : ∀ l r t, holds .le l r = .ok t → holds .le l l = .ok true
  trans : ∀ l m r, holds .le l m = .ok true → holds .le m r = .ok true → holds .le l r = .ok true
  total : ∀ l r t, holds .le l r = .ok t → holds .le l r = .ok true ∨ holds .le r l = .ok true
  /-- Of two texts that are ordered, each one is at most the other if they are equal. -/
  antisymm : ∀ l r t, holds .le l r = .ok t →
    (holds .le l r = .ok true ∧ holds .le r l = .ok true ↔ holds .eq l r = .ok true)
  gt : ∀ l r, (holds .gt l r).toOption = (holds .le l r).toOption.map not
  ge : ∀ l r, (holds .ge l r).toOption = (holds .lt l r).toOption.map not
  mirror : ∀ op l r, (holds op.mirror r l).toOption = (holds op l r).toOption

/-- **Comparing.** The texts of operands compare by the laws. -/
theorem lawful_holds : Lawful holds where
  integers op l r a b hl hr := by
    refine ⟨op.onInts a b, ?_, onInts_eq_true⟩
    rw [holds.eq_def, Text.int64?_eq_some.2 hl, Text.int64?_eq_some.2 hr]
  texts l r h := by
    -- One of the texts is read as no integer.
    have hnone : Text.int64? l = none ∨ Text.int64? r = none := by
      by_contra hsome
      rw [not_or, ← Ne, ← Ne, Option.ne_none_iff_exists', Option.ne_none_iff_exists'] at hsome
      exact h (hsome.imp (.imp fun _ => Text.int64?_eq_some.1)
        (.imp fun _ => Text.int64?_eq_some.1))
    refine ⟨?_, ?_, fun op hop => ?_⟩
    · rw [holds.eq_def]
      split <;> simp_all
    · rw [holds.eq_def]
      split <;> simp_all
    · rw [holds_ordering hop]
      split <;> simp_all
  equivalence := by
    simp only [holds_eq, Except.ok.injEq, decide_eq_true_eq]
    exact ⟨fun _ => rfl, Eq.symm, Eq.trans⟩
  negation l r := ⟨_, holds_eq l r, by rw [holds_ne, decide_not]⟩
  ordered op hop op' hop' l r := by
    rintro ⟨t, h⟩
    obtain ⟨a, b, ha, hb, -⟩ := (holds_ordering_eq_ok hop).1 h
    exact ⟨_, (holds_ordering_eq_ok hop').2 ⟨b, a, hb, ha, rfl⟩⟩
  -- Texts that are ordered denote integers, and these have an order.
  refl l r t h := by
    obtain ⟨a, b, ha, hb, -⟩ := (holds_ordering_eq_ok (by decide)).1 h
    exact holds_le.2 ⟨a, a, ha, ha, le_rfl⟩
  trans l m r h h' := by
    obtain ⟨a, b, ha, hb, hab⟩ := holds_le.1 h
    obtain ⟨b', c, hb', hc, hbc⟩ := holds_le.1 h'
    -- The text between them denotes one integer only.
    obtain rfl : b = b' := Option.some.inj (hb.symm.trans hb')
    exact holds_le.2 ⟨a, c, ha, hc, hab.trans hbc⟩
  total l r t h := by
    obtain ⟨a, b, ha, hb, -⟩ := (holds_ordering_eq_ok (by decide)).1 h
    exact (le_total a b).imp (fun hab => holds_le.2 ⟨a, b, ha, hb, hab⟩)
      fun hba => holds_le.2 ⟨b, a, hb, ha, hba⟩
  antisymm l r t h := by
    obtain ⟨a, b, ha, hb, -⟩ := (holds_ordering_eq_ok (by decide)).1 h
    simp only [holds_le, holds_eq, meaning, ha, hb, Option.some.injEq, Except.ok.injEq,
      decide_eq_true_eq, Sum.inl.injEq, exists_and_left, exists_eq_left']
    exact le_antisymm_iff.symm
  gt l r := by
    rw [holds_ordering (by decide), holds_ordering (by decide)]
    cases Text.int64? l <;> cases Text.int64? r <;>
      simp [onInts, Except.toOption, ← decide_not]
  ge l r := by
    rw [holds_ordering (by decide), holds_ordering (by decide)]
    cases Text.int64? l <;> cases Text.int64? r <;>
      simp [onInts, Except.toOption, ← decide_not]
  mirror op l r := by
    cases op
    case eq => simp only [mirror, holds_eq, eq_comm (a := meaning r)]
    case ne => simp only [mirror, holds_ne, ne_comm (a := meaning r)]
    all_goals
      rw [mirror, holds_ordering (by decide), holds_ordering (by decide)]
      cases Text.int64? l <;> cases Text.int64? r <;> rfl

/-- A number of more than 64 bits is a text like any other. -/
example : eq.holds "9223372036854775808" "+9223372036854775808" = .ok false := by decide +kernel

end Operator

end Runbook
