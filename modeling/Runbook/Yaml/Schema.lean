import Runbook.Decimal.Notation
import Runbook.Text.Integer
import Runbook.Yaml

/-!
# What YAML scalars mean

A plain scalar without a tag is a null, a truth value, an integer, a float or else a text, tried in
this order. Integers may be written in four bases; decimal digits that begin with a zero are a text.
A tag of the common schema asks for one of the kinds, and every other tag for a text.

* `atomOfPlain` is the meaning of a plain scalar without a tag,
* `atom?` is the meaning of a scalar, `Atom.text?` the text that stands for it.
-/

namespace Runbook.Yaml

/-! ### Words -/

def isNullWord (s : String) : Bool := s == "null" || s == "Null" || s == "NULL" || s == "~"

def bool? (s : String) : Option Bool :=
  if s == "true" || s == "True" || s == "TRUE" then some true
  else if s == "false" || s == "False" || s == "FALSE" then some false
  else none

/-! ### Integers -/

def digitIn? (base : Nat) (c : Char) : Option Nat := (hexDigit? c).filter (· < base)

/-- The value of a non-empty list of digits in a base. -/
def digitsIn? (base : Nat) (cs : List Char) : Option Nat :=
  if cs.isEmpty then none
  else cs.foldlM (fun n c => (digitIn? base c).map (n * base + ·)) 0

/-- Whether there are several decimal digits of which the first is zero. -/
def isZeroPadded : List Char → Bool
  | '0' :: cs => !cs.isEmpty && cs.all Char.isDigit
  | _ => false

/-- The value of an integer without sign. -/
def magnitude? : List Char → Option Nat
  | '0' :: 'x' :: cs => digitsIn? 16 cs
  | '0' :: 'o' :: cs => digitsIn? 8 cs
  | '0' :: 'b' :: cs => digitsIn? 2 cs
  | cs => if isZeroPadded cs then none else digitsIn? 10 cs

/-- A sign and what it applies to. -/
def splitSign : List Char → Bool × List Char
  | '-' :: cs => (true, cs)
  | '+' :: cs => (false, cs)
  | cs => (false, cs)

def integer? (cs : List Char) : Option Int :=
  let (negative, cs) := splitSign cs
  (magnitude? cs).map fun n => if negative then -(n : Int) else n

/-! ### Floats -/

inductive Real where
  | finite (value : Decimal.Binary64)
  | infinite (negative : Bool)
  | nan
  deriving Repr, DecidableEq

/-- The text of a number, without exponent. -/
def Real.text : Real → String
  | finite x => Decimal.Notation.plain.write x
  | infinite negative => if negative then "-inf" else "inf"
  | nan => "NaN"

/-- The exponent at the end of a number. -/
def exponent? : List Char → Option Int
  | [] => some 0
  | c :: cs =>
    if c == 'e' || c == 'E' then
      let (negative, cs) := splitSign cs
      (digitsIn? 10 cs).map fun n => if negative then -(n : Int) else n
    else none

/-- The digits before and after a point that need not be there. -/
def significand (cs : List Char) : List Char × List Char × List Char :=
  let (whole, rest) := cs.span Char.isDigit
  match rest with
  | '.' :: rest =>
    let (fraction, rest) := rest.span Char.isDigit
    (whole, fraction, rest)
  | rest => (whole, [], rest)

/-- A finite decimal number without sign. -/
def decimal? (negative : Bool) (cs : List Char) : Option Decimal.Binary64 := do
  let (whole, fraction, rest) := significand cs
  if whole.isEmpty && fraction.isEmpty then none
  let e ← exponent? rest
  Decimal.Binary64.ofDecimal negative (Text.digitsValue (whole ++ fraction)) (e - fraction.length)

def isInfinity (cs : List Char) : Bool :=
  [".inf", ".Inf", ".INF"].contains (String.ofList cs)

def real? (cs : List Char) : Option Real :=
  let (negative, unsigned) := splitSign cs
  if isInfinity unsigned then some (.infinite negative)
  else if [".nan", ".NaN", ".NAN"].contains (String.ofList cs) then some .nan
  else (decimal? negative unsigned).map .finite

/-! ### Atoms -/

inductive Atom where
  | null
  | bool (value : Bool)
  /-- An integer of 64 bits, with or without sign. -/
  | integer (value : Int)
  /-- An integer of more than 64 bits, but at most 128. -/
  | longInteger
  | real (value : Real)
  | text (value : String)
  deriving Repr, DecidableEq

/-- The atom of an integer, unless it is too long. -/
def Atom.ofInt? (n : Int) : Option Atom :=
  if Text.int64Min ≤ n && n ≤ Text.uint64Max then some (.integer n)
  else if -(Nat.pow 2 127 : Nat) ≤ n && n < (Nat.pow 2 128 : Nat) then some .longInteger
  else none

/-- The meaning of a plain scalar without a tag. -/
def atomOfPlain (s : String) : Atom :=
  if s.isEmpty || isNullWord s then .null
  else
    match bool? s with
    | some b => .bool b
    | none =>
      match (integer? s.toList).bind Atom.ofInt? with
      | some a => a
      | none =>
        -- Digits after a leading zero are a text, not a number in any base.
        if isZeroPadded (splitSign s.toList).2 then .text s
        else
          match real? s.toList with
          | some x => .real x
          | none => .text s

/-- The beginning of the tags of the common schema. -/
def schemaTag (name : String) : String := "tag:yaml.org,2002:" ++ name

/-- Whether a tag is private to a document. -/
def isLocalTag (tag : String) : Bool := tag.toList.head? == some '!'

/-- The meaning of a scalar. A scalar with a private tag has none. -/
def atom? (tag : Option String) (style : Style) (s : String) : Option Atom :=
  match tag with
  | none => some (if style == .plain then atomOfPlain s else .text s)
  | some tag =>
    if isLocalTag tag then none
    else if tag == schemaTag "bool" then (bool? s).map .bool
    else if tag == schemaTag "int" then (integer? s.toList).bind Atom.ofInt?
    else if tag == schemaTag "float" then (real? s.toList).map .real
    else if tag == schemaTag "null" then if isNullWord s then some .null else none
    else some (.text s)

/-- The text that an atom stands for. Integers beyond the signed range count as floats. -/
def Atom.text? : Atom → Option String
  | null => none
  | bool b => some (if b then "true" else "false")
  | integer n =>
    if n ≤ Text.int64Max then some (toString n)
    else (Decimal.Binary64.ofInt n).map fun x => (Real.finite x).text
  | longInteger => none
  | real x => some x.text
  | text s => some s

/-! ### Scalars of a known kind -/

/-- Whether a scalar may be read as a kind that is not a text: it is plain, or literal with the tag
of the kind. -/
def mayBe (kind : String) (tag : Option String) (style : Style) : Bool :=
  style == .plain || (style == .literal && tag == some (schemaTag kind))

/-- A natural number of 64 bits. -/
def natural? (s : String) : Option Nat :=
  match s.toList with
  | '-' :: _ => none
  | '+' :: cs => (magnitude? cs).filter (· ≤ Text.uint64Max)
  | cs => (magnitude? cs).filter (· ≤ Text.uint64Max)

end Runbook.Yaml
