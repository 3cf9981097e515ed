/-!
# Integer numerals

A numeral is an optional sign and one or more ASCII digits. `int64?` reads the numerals whose
value fits a signed 64-bit word; every other text is no integer.
-/

namespace Runbook.Text

def digitValue (c : Char) : Nat := c.toNat - '0'.toNat

/-- The value of a list of decimal digits, the first one counting most. -/
def digitsValue (cs : List Char) : Nat := cs.foldl (fun n c => n * 10 + digitValue c) 0

/-- The value of a non-empty list of digits. -/
def natural? (cs : List Char) : Option Nat :=
  if cs.isEmpty || !cs.all Char.isDigit then none else some (digitsValue cs)

/-- The value of a signed or unsigned numeral, however long. -/
def integer? : List Char → Option Int
  | '+' :: cs => (natural? cs).map Int.ofNat
  | '-' :: cs => (natural? cs).map fun n => -(n : Int)
  | cs => (natural? cs).map Int.ofNat

/-- The least signed 64-bit integer. -/
def int64Min : Int := -(Nat.pow 2 63 : Nat)

/-- The greatest signed 64-bit integer. -/
def int64Max : Int := (Nat.pow 2 63 : Nat) - 1

/-- The greatest unsigned 64-bit integer. -/
def uint64Max : Nat := Nat.pow 2 64 - 1

/-- The integer a text denotes, if it is a numeral in the signed 64-bit range. -/
def int64? (s : String) : Option Int :=
  (integer? s.toList).filter fun n => decide (int64Min ≤ n) && decide (n ≤ int64Max)

end Runbook.Text
