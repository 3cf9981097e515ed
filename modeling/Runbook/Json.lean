import Runbook.Decimal.Notation
import Runbook.Text.Integer

/-!
# JSON values

`Json` is the tree of a JSON text. A part of a text can be well formed and still have no value: a
string with an unpaired surrogate, a number too large for a double, or a part nested too deeply.
Such a part is `Json.unreadable`; it does no harm where nobody reads it.

* `Json.Number` tells integers of 64 bits from all other numbers,
* `Json.fields?` reads an object, or a list of field values in the order of the fields, as the
  fields of a record; `Json.allFields?` wants such a list to be complete.
-/

namespace Runbook

/-- A number: an integer that fits 64 bits, with or without sign, or else a double. -/
inductive Json.Number where
  | integer (value : Int)
  | real (value : Decimal.Binary64)
  deriving Repr, DecidableEq

inductive Json where
  | null
  | bool (value : Bool)
  | number (value : Json.Number)
  | string (text : String)
  | array (items : List Json)
  | object (members : List (String × Json))
  | unreadable
  deriving Repr, Inhabited

namespace Json

def ofNat (n : Nat) : Json := number (.integer n)

def ofInt (n : Int) : Json := number (.integer n)

/-! ### Reading parts -/

def text? : Json → Option String
  | string s => some s
  | _ => none

def items? : Json → Option (List Json)
  | array items => some items
  | _ => none

def members? : Json → Option (List (String × Json))
  | object members => some members
  | _ => none

def bool? : Json → Option Bool
  | bool b => some b
  | _ => none

/-- A natural number that fits an unsigned word of 64 bits. -/
def natural? : Json → Option Nat
  | number (.integer (.ofNat n)) => some n
  | _ => none

/-- An optional part: `null` stands for its absence. -/
def optional? {α : Type} (read : Json → Option α) : Json → Option (Option α)
  | null => some none
  | j => (read j).map some

/-- A list of parts that are all read the same way. -/
def list? {α : Type} (read : Json → Option α) (j : Json) : Option (List α) :=
  j.items?.bind fun items => items.mapM read

/-- The members whose names are known, provided that no known name occurs twice. -/
def known? (names : List String) : List (String × Json) → Option (List (String × Json))
  | [] => some []
  | (name, j) :: rest => do
    let fields ← known? names rest
    if names.contains name then
      if fields.any (fun f => f.1 == name) then none else some ((name, j) :: fields)
    else some fields

/-- The fields of a record: the members of an object, or the items of an array taken in the order
of `names`, with none to spare. -/
def fields? (names : List String) : Json → Option (List (String × Json))
  | object members => known? names members
  | array items => if items.length ≤ names.length then some (names.zip items) else none
  | _ => none

/-- Reads the fields of a record that an array has to list in full. -/
def allFields? (names : List String) : Json → Option (List (String × Json))
  | array items => if items.length = names.length then some (names.zip items) else none
  | j => j.fields? names

/-- Reads the field `name`, with a value to take when it is missing. -/
def field? {α : Type} (fields : List (String × Json)) (name : String) (missing : Option α)
    (read : Json → Option α) : Option α :=
  match fields.lookup name with
  | some j => read j
  | none => missing

end Json

end Runbook
