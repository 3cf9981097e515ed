import Runbook.Decimal.Shortest

/-!
# Writing numbers

A `Notation` decides how the shortest decimal of a number is laid out: for which leading powers of
ten it is written without an exponent, and whether a whole number shows a fraction. `write` lays a
number out.

* `Notation.plain` never writes an exponent and shows a fraction only where there is one.
* `Notation.scientific` writes an exponent for very large and very small numbers and otherwise
  always shows a fraction.
-/

namespace Runbook.Decimal

structure Notation where
  /-- The leading powers of ten written without an exponent; all of them if absent. -/
  positional : Option (Int × Int)
  /-- Whether a whole number written without an exponent ends in `.0`. -/
  showFraction : Bool
  tie : Tie

namespace Notation

def plain : Notation := ⟨none, false, .up⟩

def scientific : Notation := ⟨some (-5, 15), true, .toEven⟩

def zeros (n : Nat) : String := String.ofList (List.replicate n '0')

/-- Whether a number whose first digit counts `10 ^ lead` is written without an exponent. -/
def isPositional (f : Notation) (lead : Int) : Bool :=
  match f.positional with
  | none => true
  | some (least, greatest) => decide (least ≤ lead) && decide (lead ≤ greatest)

/-- Digits with the point where it belongs. -/
def writePositional (f : Notation) (digits : List Char) (exponent : Int) : String :=
  if 0 ≤ exponent then
    String.ofList digits ++ zeros exponent.toNat ++ (if f.showFraction then ".0" else "")
  else
    let places := (-exponent).toNat
    if places < digits.length then
      String.ofList (digits.take (digits.length - places)) ++ "." ++
        String.ofList (digits.drop (digits.length - places))
    else "0." ++ zeros (places - digits.length) ++ String.ofList digits

/-- One digit before the point, and the exponent with its sign. -/
def writeExponent (digits : List Char) (lead : Int) : String :=
  let fraction := digits.drop 1
  String.ofList (digits.take 1) ++
    (if fraction.isEmpty then "" else "." ++ String.ofList fraction) ++
    (if 0 ≤ lead then "e+" ++ toString lead.toNat else "e-" ++ toString (-lead).toNat)

/-- The text of a number. -/
def write (f : Notation) (x : Binary64) : String :=
  let sign := if x.negative then "-" else ""
  if x.isZero then sign ++ (if f.showFraction then "0.0" else "0")
  else
    let s := shortest f.tie x
    let digits := Nat.toDigits 10 s.digits
    let lead := s.exponent + (digits.length : Int) - 1
    sign ++
      (if f.isPositional lead then f.writePositional digits s.exponent
        else writeExponent digits lead)

end Notation

end Runbook.Decimal
