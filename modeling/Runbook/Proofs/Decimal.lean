import Mathlib.Algebra.Group.Nat.Defs
import Runbook.Decimal.Notation

namespace Runbook.Decimal

/-!
# Doubles from `2 ^ 63` to `2 ^ 64`

Between these two powers every double is a multiple of `2 ^ 11`, so most integers there are none.
What is written for such a double has at most 17 digits before the zeros at its end.

* `Binary64.nearest_upper` — an integer is rounded to the nearest multiple;
* `Scientific.le_exponent_strip`, `le_exponent_shortest` — the shortest decimal has few digits;
* `Notation.dvd_of_write` — an integer that is written for a double ends in two zeros.
-/

/-! ### Rounding -/

namespace Binary64

/-- The double with `m` multiples of `2 ^ 11`, for `m` from `2 ^ 52` to `2 ^ 53`. -/
def upper (m : Nat) : Binary64 :=
  if m = Nat.pow 2 precision then ⟨false, Nat.pow 2 (precision - 1), 12⟩ else ⟨false, m, 11⟩

/-- The integers between the two powers have 53 bits and 11 more. -/
theorem exponentFor_upper {n : Nat} (hmin : 2 ^ 63 ≤ n) (hmax : n < 2 ^ 64) :
    exponentFor n 1 = 11 := by
  have hlog : Nat.log2 n = 63 := by
    rw [Nat.log2_eq_iff (by omega)]
    exact ⟨hmin, hmax⟩
  have hone : Nat.log2 1 = 0 := by decide
  have hten : ¬ n < 9223372036854775808 := by omega
  have heleven : n < 18446744073709551616 := by omega
  have hbound : max (11 : Int) minExponent = 11 := rfl
  simp [exponentFor, hlog, hone, scale2, precision, hten, heleven, hbound]

/-- What `m` multiples come to, once 54 bits are cut to 53. -/
theorem upper_eq {m m' : Nat} {x : Int}
    (h : (if m = Nat.pow 2 precision then (Nat.pow 2 (precision - 1), (11 : Int) + 1)
      else (m, 11)) = (m', x)) : x ≤ 12 ∧ (⟨false, m', x⟩ : Binary64) = upper m := by
  rw [upper]
  split at h
  case isTrue hm =>
    obtain ⟨rfl, rfl⟩ := Prod.mk.inj h
    exact ⟨Int.le_refl 12, (if_pos hm).symm⟩
  case isFalse hm =>
    obtain ⟨rfl, rfl⟩ := Prod.mk.inj h
    exact ⟨by decide, (if_neg hm).symm⟩

/-- **Rounding.** An integer between the two powers is rounded to the nearest multiple. -/
theorem nearest_upper {n : Nat} (hmin : 2 ^ 63 ≤ n) (hmax : n < 2 ^ 64) :
    nearest false n 1 0 = some (upper (divNearest n 2048)) := by
  have hscale : scale2 n 1 0 = (n, 1) := by simp [scale2]
  have hscale' : scale2 n 1 (-11) = (n, 2048) := by simp [scale2]
  have hexponent := exponentFor_upper hmin hmax
  fun_cases nearest false n 1 0
  case case1 hn => omega
  case case2 hn n' d' hs x a b hs' m m' x' hm hx' =>
    obtain ⟨rfl, rfl⟩ := Prod.mk.inj (hscale.symm.trans hs)
    have hx : x = 11 := hexponent
    clear_value x
    subst hx
    have hle := (upper_eq hm).1
    have hmaxExponent : maxExponent = 971 := rfl
    omega
  case case3 hn n' d' hs x a b hs' m m' x' hm hx' =>
    obtain ⟨rfl, rfl⟩ := Prod.mk.inj (hscale.symm.trans hs)
    have hx : x = 11 := hexponent
    clear_value x
    subst hx
    obtain ⟨rfl, rfl⟩ := Prod.mk.inj (hscale'.symm.trans hs')
    exact congrArg some (upper_eq hm).2

theorem ofInt_upper {n : Nat} (hmin : 2 ^ 63 ≤ n) (hmax : n < 2 ^ 64) :
    ofInt n = some (upper (divNearest n 2048)) := by
  have hneg : decide ((n : Int) < 0) = false := by simp
  rw [ofInt, hneg, Int.natAbs_natCast]
  exact nearest_upper hmin hmax

end Binary64

/-! ### The shortest decimal -/

theorem Scientific.le_exponent_strip (fuel : Nat) (s : Scientific) :
    s.exponent ≤ (s.strip fuel).exponent := by
  induction fuel generalizing s with
  | zero => exact Int.le_refl _
  | succ fuel ih =>
    rw [strip]
    split
    · have h := ih ⟨s.digits / 10, s.exponent + 1⟩
      exact Int.le_trans (Int.le_add_of_nonneg_right (by decide)) h
    · exact Int.le_refl _

/-- A decimal whose first digit counts `10 ^ lead` has at most 17 digits, if 17 digits do. -/
theorem le_exponent_shortest {tie : Tie} {x : Binary64} {lead : Int}
    (hlead : (Window.of x).leadingPower = lead)
    (h : ((Window.of x).onGrid? tie (lead - 16)).isSome) :
    lead - 16 ≤ (shortest tie x).exponent := by
  rw [shortest]
  simp only [hlead]
  refine Int.le_trans ?_ (Scientific.le_exponent_strip _ _)
  generalize hfound : (List.range enoughDigits).findSome? _ = found
  cases found with
  | none =>
    have hlast := List.findSome?_eq_none_iff.1 hfound 16 (by decide)
    have hnone : (Window.of x).onGrid? tie (lead - 16) = none := Option.map_eq_none_iff.1 hlast
    rw [hnone] at h
    cases h
  | some s =>
    obtain ⟨n, hn, hs⟩ := List.exists_of_findSome?_eq_some hfound
    obtain ⟨q, -, rfl⟩ := Option.map_eq_some_iff.1 hs
    have hlt : n < 17 := List.mem_range.1 hn
    show lead - 16 ≤ lead - n
    omega

namespace Window

variable {w : Window} {k : Int}

theorem holds_of_lt {a : Nat} (hdenominator : w.denominator = 1) (hlow : w.low < a)
    (hhigh : a < w.high) : w.holds a 1 = true := by
  simp only [holds, hdenominator, Nat.mul_one]
  split <;> simp <;> omega

/-- Where the grid is finer than the way down to the window's end, there is a decimal on it. -/
theorem isSome_onGrid? (tie : Tie) (step : Nat) (hk : 0 ≤ k) (hstep : Nat.pow 10 k.toNat = step)
    (hdenominator : w.denominator = 1) (hlow : w.low + step ≤ w.value) (hhigh : w.value < w.high) :
    (w.onGrid? tie k).isSome := by
  fun_cases onGrid? w tie k
  case case8 up down n d q lower upper _ hlower _ =>
    have hup : up = step := (if_pos hk).trans hstep
    have hdown : down = 1 := if_pos hk
    have hpos : 0 < up := hup ▸ hstep ▸ Nat.pow_pos (by decide)
    have hq : q = w.value / up := by
      show w.value * down / (w.denominator * up) = _
      rw [hdown, hdenominator, Nat.mul_one, Nat.one_mul]
    -- The decimal below the value is less than one step away.
    have hbelow : q * up ≤ w.value ∧ w.value < q * up + up := by
      rw [hq]
      exact ⟨Nat.div_mul_le_self _ _, Nat.lt_div_mul_add hpos⟩
    rw [← hup] at hlow
    refine absurd ?_ hlower
    show w.holds (q * up) down = true
    rw [hdown]
    exact holds_of_lt hdenominator (by omega) (by omega)
  all_goals rfl

/-- The power of ten of the first digit, for values between the two powers of two. -/
theorem leadingPower_eq (hdenominator : w.denominator = 1) (hmin : 2 ^ 63 ≤ w.value)
    (hmax : w.value ≤ 2 ^ 64) :
    w.leadingPower = if 10000000000000000000 ≤ w.value then 19 else 18 := by
  have hlog : Nat.log2 w.value = 63 ∨ Nat.log2 w.value = 64 := by
    rw [Nat.log2_eq_iff (by omega), Nat.log2_eq_iff (by omega)]
    omega
  have hone : Nat.log2 1 = 0 := by decide
  have h18 : 1000000000000000000 ≤ w.value := by omega
  have h20 : ¬ 100000000000000000000 ≤ w.value := by omega
  have h21 : ¬ 1000000000000000000000 ≤ w.value := by omega
  obtain hlog | hlog := hlog <;> by_cases h19 : 10000000000000000000 ≤ w.value <;>
    simp [leadingPower, hlog, hdenominator, hone, h18, h19, h20, h21, List.find?]

end Window

namespace Binary64

variable {m : Nat} (hmin : 2 ^ 52 ≤ m) (hmax : m ≤ 2 ^ 53)
include hmin hmax

/-- The window of a double between the two powers: half a step up, half a step down, and half of
    that below a power of two. -/
theorem window_upper :
    (Window.of (upper m)).denominator = 1 ∧ (Window.of (upper m)).value = m * 2048 ∧
      m * 2048 < (Window.of (upper m)).high ∧
      (Window.of (upper m)).low + (if 10000000000000000000 ≤ m * 2048 then 1000 else 100) ≤
        m * 2048 := by
  rw [upper]
  split
  case isTrue hm =>
    subst hm
    decide
  case isFalse hm =>
    have hlt : m < 9007199254740992 := by
      have htop : Nat.pow 2 precision = 2 ^ 53 := rfl
      omega
    have hleast : Nat.pow 2 (precision - 1) = 4503599627370496 := rfl
    have hexponent : (11 : Int) > minExponent := by decide
    simp only [Window.of, hleast, hexponent]
    by_cases heq : m = 4503599627370496
    · subst heq
      decide
    · have hgrid : (if 10000000000000000000 ≤ m * 2048 then 1000 else 100) ≤ 1000 := by
        split <;> decide
      simp [heq]
      omega

/-- **Digits.** The shortest decimal of such a double is a multiple of a hundred. -/
theorem two_le_exponent_shortest (tie : Tie) : 2 ≤ (shortest tie (upper m)).exponent := by
  obtain ⟨hdenominator, hvalue, hhigh, hlow⟩ := window_upper hmin hmax
  have hlead := Window.leadingPower_eq hdenominator (by omega) (by omega)
  rw [← hvalue] at hhigh hlow
  split at hlead
  case isTrue hbig =>
    rw [if_pos hbig] at hlow
    have hsome :=
      Window.isSome_onGrid? tie 1000 (k := 19 - 16) (by decide) rfl hdenominator hlow hhigh
    exact Int.le_trans (by decide) (le_exponent_shortest hlead hsome)
  case isFalse hsmall =>
    rw [if_neg hsmall] at hlow
    have hsome :=
      Window.isSome_onGrid? tie 100 (k := 18 - 16) (by decide) rfl hdenominator hlow hhigh
    exact le_exponent_shortest hlead hsome

end Binary64

/-! ### Writing -/

namespace Notation

/-- A positive double of which the shortest decimal is an integer is written as its digits, with the
    zeros at the end. -/
theorem toList_write_plain {x : Binary64} (hnegative : x.negative = false)
    (hzero : x.isZero = false) (hexponent : 0 ≤ (shortest .up x).exponent) :
    (plain.write x).toList = Nat.toDigits 10 (shortest .up x).digits ++
      List.replicate (shortest .up x).exponent.toNat '0' := by
  have hpositional : ∀ lead, plain.isPositional lead = true := fun _ => rfl
  have hfraction : plain.showFraction = false := rfl
  have htie : plain.tie = .up := rfl
  simp only [write, hnegative, hzero, htie, hpositional, writePositional, if_pos hexponent,
    hfraction, zeros, Bool.false_eq_true, if_false, if_true, String.toList_append,
    String.toList_ofList]
  simp

/-- What is written for a double between the two powers ends in two zeros. -/
theorem dvd_of_write {m n : Nat} (hmin : 2 ^ 52 ≤ m) (hmax : m ≤ 2 ^ 53)
    (h : plain.write (Binary64.upper m) = toString n) : 100 ∣ n := by
  have hexponent := Binary64.two_le_exponent_shortest hmin hmax .up
  have hnegative : (Binary64.upper m).negative = false := by
    rw [Binary64.upper]
    split <;> rfl
  have hzero : (Binary64.upper m).isZero = false := by
    rw [Binary64.upper, Binary64.isZero]
    split
    · decide
    · simp
      omega
  generalize Binary64.upper m = x at *
  have hdigits := toList_write_plain hnegative hzero (Int.le_trans (by decide) hexponent)
  rw [h, Nat.toString_eq_repr, Nat.repr_eq_ofList_toDigits, String.toList_ofList] at hdigits
  have hread := Nat.ofDigitChars_ten_toDigits (n := n)
  rw [hdigits, Nat.ofDigitChars_append, Nat.ofDigitChars_replicate_zero,
    Nat.ofDigitChars_ten_toDigits] at hread
  rw [← hread]
  exact Nat.dvd_mul_right_of_dvd (Nat.pow_dvd_pow 10 (by omega : 2 ≤ _)) _

end Notation

end Runbook.Decimal
