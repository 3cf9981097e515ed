import Runbook.Decimal.Binary64

/-!
# The shortest decimal that reads back

Of all decimals that round to a given number, `shortest` picks one with the fewest digits, and of
those the nearest. A decimal with `n` digits that rounds to the number exists only if one of the
number's two neighbours on the grid of such decimals does, so for `n = 1, 2, …` only these two are
tried.
-/

namespace Runbook.Decimal

/-- `digits · 10 ^ exponent`. -/
structure Scientific where
  digits : Nat
  exponent : Int
  deriving Repr, DecidableEq

/-- Which neighbour is taken when the number lies halfway between two shortest decimals. -/
inductive Tie where
  | toEven
  | up
  deriving Repr, DecidableEq

/-- The decimals that round to a number: what lies between `low` and `high`, all three being
fractions over `denominator`. The ends belong to it for an even significand. -/
structure Window where
  low : Nat
  value : Nat
  high : Nat
  denominator : Nat
  inclusive : Bool

namespace Window

/-- Half the way to the next number up, and half the way down; the way down is shorter below a
power of two. -/
def of (x : Binary64) : Window :=
  let m := x.significand
  let least := Nat.pow 2 (Binary64.precision - 1)
  let below := if m = least && x.exponent > Binary64.minExponent then 1 else 2
  let e := x.exponent - 2
  let factor := if 0 ≤ e then Nat.pow 2 e.toNat else 1
  { low := (4 * m - below) * factor
    value := 4 * m * factor
    high := (4 * m + 2) * factor
    denominator := if 0 ≤ e then 1 else Nat.pow 2 (-e).toNat
    inclusive := m % 2 == 0 }

/-- Whether `n / d` lies in the window. -/
def holds (w : Window) (n d : Nat) : Bool :=
  let a := n * w.denominator
  if w.inclusive then decide (w.low * d ≤ a) && decide (a ≤ w.high * d)
  else decide (w.low * d < a) && decide (a < w.high * d)

/-- The power of ten of the first digit of the value. -/
def leadingPower (w : Window) : Int :=
  let guess : Int :=
    ((Nat.log2 w.value : Int) - (Nat.log2 w.denominator : Int)) * 30103 / 100000
  let reaches (e : Int) : Bool :=
    if 0 ≤ e then decide (Nat.pow 10 e.toNat * w.denominator ≤ w.value)
    else decide (w.denominator ≤ w.value * Nat.pow 10 (-e).toNat)
  ([guess + 2, guess + 1, guess, guess - 1].find? reaches).getD (guess - 2)

/-- A decimal on the grid of spacing `10 ^ k` that lies in the window: the nearer of the value's two
neighbours, if both do. -/
def onGrid? (w : Window) (tie : Tie) (k : Int) : Option Nat :=
  let up := if 0 ≤ k then Nat.pow 10 k.toNat else 1
  let down := if 0 ≤ k then 1 else Nat.pow 10 (-k).toNat
  let n := w.value * down
  let d := w.denominator * up
  let q := n / d
  let r := n % d
  let lower := w.holds (q * up) down
  let upper := w.holds ((q + 1) * up) down
  if lower && upper then
    if 2 * r < d then some q
    else if d < 2 * r then some (q + 1)
    else
      match tie with
      | .toEven => if q % 2 = 0 then some q else some (q + 1)
      | .up => some (q + 1)
  else if lower then some q
  else if upper then some (q + 1)
  else none

end Window

/-- Moves zeros at the end of the digits into the exponent. -/
def Scientific.strip : Nat → Scientific → Scientific
  | 0, s => s
  | fuel + 1, s =>
    if s.digits ≠ 0 ∧ s.digits % 10 = 0 then strip fuel ⟨s.digits / 10, s.exponent + 1⟩ else s

/-- The number of digits that always suffice. -/
def enoughDigits : Nat := 17

/-- The shortest decimal that rounds to the magnitude of a number that is not zero. -/
def shortest (tie : Tie) (x : Binary64) : Scientific :=
  let w := Window.of x
  let lead := w.leadingPower
  let found := (List.range enoughDigits).findSome? fun (n : Nat) =>
    let k : Int := lead - n
    (w.onGrid? tie k).map fun q => (⟨q, k⟩ : Scientific)
  (found.getD ⟨x.significand, 0⟩).strip (enoughDigits + 1)

end Runbook.Decimal
