/-!
# Binary floating-point numbers of 64 bits

A finite number is `± significand · 2 ^ exponent`, kept in the one form with `significand < 2 ^ 53`
in which the exponent is least. All operations compute the exact rational result and round it once,
to the nearest number and on a tie to the one with the even significand.

* `Binary64.nearest` rounds a rational,
* `Binary64.ofDecimal` rounds a decimal numeral,
* `Binary64.mul` and `Binary64.div` are the rounded product and quotient.

Each answers `none` when the result is too large for a finite number.
-/

namespace Runbook.Decimal

structure Binary64 where
  negative : Bool
  significand : Nat
  exponent : Int
  deriving Repr, DecidableEq

namespace Binary64

/-- How many bits a significand has at most. -/
def precision : Nat := 53

/-- The exponent of the numbers next to zero. -/
def minExponent : Int := -1074

/-- The exponent of the greatest numbers. -/
def maxExponent : Int := 971

def zero (negative : Bool) : Binary64 := ⟨negative, 0, minExponent⟩

def isZero (x : Binary64) : Bool := x.significand == 0

def neg (x : Binary64) : Binary64 := { x with negative := !x.negative }

/-- The quotient rounded to the nearest integer, a tie going to the even one. -/
def divNearest (n d : Nat) : Nat :=
  let q := n / d
  let r := n % d
  if 2 * r < d then q
  else if d < 2 * r then q + 1
  else if q % 2 = 0 then q else q + 1

/-- `n · 2 ^ e` as a fraction. -/
def scale2 (n d : Nat) (e : Int) : Nat × Nat :=
  if 0 ≤ e then (n * Nat.pow 2 e.toNat, d) else (n, d * Nat.pow 2 (-e).toNat)

/-- The least exponent at which `n / d` has an integer part of at most `precision` bits. -/
def exponentFor (n d : Nat) : Int :=
  let guess : Int := (Nat.log2 n : Int) - (Nat.log2 d : Int) - precision
  let fits (e : Int) : Bool :=
    let (a, b) := scale2 n d (-e)
    decide (a < b * Nat.pow 2 precision)
  let e := if fits guess then guess else if fits (guess + 1) then guess + 1 else guess + 2
  max e minExponent

/-- The number nearest to `± n / d · 2 ^ e`, for a positive `d`. -/
def nearest (negative : Bool) (n d : Nat) (e : Int) : Option Binary64 :=
  if n = 0 then some (zero negative)
  else
    let (n, d) := scale2 n d e
    let x := exponentFor n d
    let (a, b) := scale2 n d (-x)
    let m := divNearest a b
    let (m, x) := if m = Nat.pow 2 precision then (Nat.pow 2 (precision - 1), x + 1) else (m, x)
    if x > maxExponent then none else some ⟨negative, m, x⟩

def ofNat (n : Nat) : Option Binary64 := nearest false n 1 0

/-- The number nearest to an integer. -/
def ofInt (n : Int) : Option Binary64 := nearest (decide (n < 0)) n.natAbs 1 0

def mul (x y : Binary64) : Option Binary64 :=
  nearest (x.negative != y.negative) (x.significand * y.significand) 1 (x.exponent + y.exponent)

/-- The rounded quotient by a number that is not zero. -/
def div (x y : Binary64) : Option Binary64 :=
  nearest (x.negative != y.negative) x.significand y.significand (x.exponent - y.exponent)

/-- Decimals whose first digit counts for more than ten to this power are too large, and those
below the inverse power round to zero. -/
def decimalReach : Int := 400

/-- The number nearest to `± digits · 10 ^ e`. Beyond `decimalReach` the answer is known without
computing the power. -/
def ofDecimal (negative : Bool) (digits : Nat) (e : Int) : Option Binary64 :=
  let places : Int := (Nat.toDigits 10 digits).length + e
  if digits = 0 then some (zero negative)
  else if decimalReach < places then none
  else if places < -decimalReach then some (zero negative)
  else if 0 ≤ e then nearest negative (digits * Nat.pow 10 e.toNat) 1 0
  else nearest negative digits (Nat.pow 10 (-e).toNat) 0

end Binary64

end Runbook.Decimal
