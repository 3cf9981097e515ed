import Runbook.Json
import Runbook.Text.Cut

/-!
# Tokens of JSON texts

`Token.scan` splits a text into the tokens of RFC 8259 and refuses every other text. The meaning of
strings and numbers is settled here as well:

* `decodeString` replaces escapes and refuses unpaired surrogates,
* `Number.ofNumeral` turns a numeral into an integer of 64 bits or else into a double. A significand
  keeps as many digits as fit an unsigned word of 64 bits, further digits only scale it, and the
  power of ten is applied in steps that each round.
-/

namespace Runbook.Json

/-! ### Numbers -/

/-- A numeral split into its parts: digits before and after the point, and the exponent. -/
structure Numeral where
  negative : Bool
  whole : List Char
  fraction : Option (List Char)
  exponent : Option (Bool × List Char)
  deriving Repr, DecidableEq

/-- A significand of at most 64 bits and the power of ten it is scaled by. -/
structure Scaled where
  significand : Nat
  power : Int
  deriving Repr, DecidableEq

namespace Scaled

/-- Takes further digits while they fit, each counting `weight` powers of ten; when one does not
fit, it and all after it only add `overflow` powers each. -/
def take (weight overflow : Int) (s : Scaled) : List Char → Scaled
  | [] => s
  | c :: cs =>
    let n := s.significand * 10 + Text.digitValue c
    if n ≤ Text.uint64Max then take weight overflow ⟨n, s.power + weight⟩ cs
    else ⟨s.significand, s.power + overflow * ((c :: cs).length : Int)⟩

/-- The greatest power of ten that is a double. -/
def maxPower : Int := 308

/-- The double `± x · 10 ^ power`, for powers of ten within `maxPower`. -/
def applyPower (x : Decimal.Binary64) (power : Int) : Option Decimal.Binary64 := do
  let ten ← Decimal.Binary64.ofDecimal false 1 (if 0 ≤ power then power else -power)
  if 0 ≤ power then x.mul ten else x.div ten

/-- Divides by the greatest power of ten until the rest of the power is within it. -/
def reduce : Nat → Decimal.Binary64 → Int → Option Decimal.Binary64
  | 0, _, _ => none
  | steps + 1, x, power =>
    if -maxPower ≤ power then applyPower x power
    else if x.isZero then some x
    else (applyPower x (-maxPower)).bind fun y => reduce steps y (power + maxPower)

/-- How often dividing by the greatest power of ten leaves something of a 64-bit significand. -/
def reductions : Nat := 4

/-- The double a scaled significand stands for, unless it is too large. -/
def toBinary64? (s : Scaled) : Option Decimal.Binary64 := do
  let x ← Decimal.Binary64.ofNat s.significand
  if maxPower < s.power then if x.isZero then some x else none
  else reduce reductions x s.power

end Scaled

/-- The greatest exponent that is read as a number; larger ones only tell zero from too large. -/
def maxExponent : Nat := Nat.pow 2 31 - 1

/-- The number a numeral denotes: an integer of 64 bits where it is written as one, else a double.
Minus zero is no integer. -/
def Number.ofNumeral (n : Numeral) : Option Number :=
  let whole := Scaled.take 0 1 ⟨0, 0⟩ n.whole
  let integral := n.fraction.isNone && n.exponent.isNone && whole.power == 0
  let signed : Int := if n.negative then -(whole.significand : Int) else whole.significand
  if integral && (!n.negative || (decide (signed < 0) && decide (Text.int64Min ≤ signed))) then
    some (.integer signed)
  else do
    let scaled := Scaled.take (-1) 0 whole (n.fraction.getD [])
    let finish (s : Scaled) : Option Number := do
      let x ← s.toBinary64?
      some (.real { x with negative := n.negative })
    match n.exponent with
    | none => finish scaled
    | some (negative, digits) =>
      let e := Text.digitsValue digits
      -- Such an exponent leaves zero as it is, and makes all else zero or too large.
      if maxExponent < e then
        if scaled.significand ≠ 0 && !negative then none
        else some (.real (.zero n.negative))
      else finish ⟨scaled.significand, scaled.power + (if negative then -(e : Int) else e)⟩

/-! ### Strings -/

/-- One character of a string as written. -/
inductive Piece where
  | char (c : Char)
  /-- An escaped UTF-16 unit. -/
  | unit (n : Nat)
  deriving Repr, DecidableEq

def isHighSurrogate (n : Nat) : Bool := decide (0xD800 ≤ n) && decide (n ≤ 0xDBFF)

def isLowSurrogate (n : Nat) : Bool := decide (0xDC00 ≤ n) && decide (n ≤ 0xDFFF)

/-- The text that the pieces spell, unless a surrogate has no partner. -/
def decodeString : List Piece → Option (List Char)
  | [] => some []
  | .char c :: rest => (decodeString rest).map (c :: ·)
  | .unit n :: rest =>
    if isHighSurrogate n then
      match rest with
      | .unit m :: rest =>
        if isLowSurrogate m then
          (decodeString rest).map
            (Char.ofNat (0x10000 + (n - 0xD800) * 0x400 + (m - 0xDC00)) :: ·)
        else none
      | _ => none
    else if isLowSurrogate n then none
    else (decodeString rest).map (Char.ofNat n :: ·)

def hexValue? (c : Char) : Option Nat :=
  if c.isDigit then some (c.toNat - '0'.toNat)
  else if 'a' ≤ c ∧ c ≤ 'f' then some (c.toNat - 'a'.toNat + 10)
  else if 'A' ≤ c ∧ c ≤ 'F' then some (c.toNat - 'A'.toNat + 10)
  else none

/-- The character that a one-letter escape stands for. -/
def escaped? : Char → Option Char
  | '"' => some '"'
  | '\\' => some '\\'
  | '/' => some '/'
  | 'b' => some '\x08'
  | 'f' => some '\x0c'
  | 'n' => some '\n'
  | 'r' => some '\r'
  | 't' => some '\t'
  | _ => none

/-- The pieces up to the closing quote, and what follows it. Control characters have to be
escaped. -/
def scanString (pieces : List Piece) : List Char → Option (List Piece × List Char)
  | [] => none
  | '"' :: rest => some (pieces.reverse, rest)
  | '\\' :: 'u' :: a :: b :: c :: d :: rest =>
    match hexValue? a, hexValue? b, hexValue? c, hexValue? d with
    | some a, some b, some c, some d =>
      scanString (.unit (((a * 16 + b) * 16 + c) * 16 + d) :: pieces) rest
    | _, _, _, _ => none
  | '\\' :: c :: rest =>
    match escaped? c with
    | some e => scanString (.char e :: pieces) rest
    | none => none
  | c :: rest => if c.toNat < 0x20 then none else scanString (.char c :: pieces) rest

/-! ### Tokens -/

inductive Token where
  | openArray
  | closeArray
  | openObject
  | closeObject
  | comma
  | colon
  | null
  | bool (value : Bool)
  /-- A numeral, and its value unless that is too large. -/
  | number (value : Option Number)
  /-- A string, and its text unless a surrogate is unpaired. -/
  | string (text : Option String)
  deriving Repr

/-- Digits at the beginning, and the rest. -/
def spanDigits (cs : List Char) : List Char × List Char :=
  (cs.takeWhile Char.isDigit, cs.dropWhile Char.isDigit)

/-- A fraction, if a point comes next; at least one digit has to follow the point. -/
def scanFraction : List Char → Option (Option (List Char) × List Char)
  | '.' :: rest =>
    let (digits, rest) := spanDigits rest
    if digits.isEmpty then none else some (some digits, rest)
  | cs => some (none, cs)

/-- The digits of an exponent after its sign. -/
def scanExponentDigits (negative : Bool) (cs : List Char) :
    Option (Option (Bool × List Char) × List Char) :=
  let (digits, rest) := spanDigits cs
  if digits.isEmpty then none else some (some (negative, digits), rest)

/-- An exponent, if the letter `e` comes next. -/
def scanExponent : List Char → Option (Option (Bool × List Char) × List Char)
  | c :: rest =>
    if c = 'e' ∨ c = 'E' then
      match rest with
      | '+' :: rest => scanExponentDigits false rest
      | '-' :: rest => scanExponentDigits true rest
      | rest => scanExponentDigits false rest
    else some (none, c :: rest)
  | [] => some (none, [])

/-- A numeral without its sign. A leading zero stands alone. -/
def scanNumeral (negative : Bool) (cs : List Char) : Option (Numeral × List Char) := do
  let (whole, rest) := spanDigits cs
  if whole.isEmpty || (decide (1 < whole.length) && whole.head? == some '0') then none
  else
    let (fraction, rest) ← scanFraction rest
    let (exponent, rest) ← scanExponent rest
    some (⟨negative, whole, fraction, exponent⟩, rest)

namespace Token

/-- The tokens that are spelled with letters. -/
def words : List (List Char × Token) :=
  [(['t', 'r', 'u', 'e'], bool true), (['f', 'a', 'l', 's', 'e'], bool false),
    (['n', 'u', 'l', 'l'], null)]

/-- A token spelled with letters at the beginning of a text. -/
def scanWord (cs : List Char) : Option (Token × List Char) :=
  words.findSome? fun w => (Text.dropPrefix? w.1 cs).map (w.2, ·)

def numberOf (r : Numeral × List Char) : Token × List Char :=
  (number (Number.ofNumeral r.1), r.2)

/-- The token at the beginning of a text whose first character is `c`. -/
def scanOne (c : Char) (rest : List Char) : Option (Token × List Char) :=
  match c with
  | '[' => some (openArray, rest)
  | ']' => some (closeArray, rest)
  | '{' => some (openObject, rest)
  | '}' => some (closeObject, rest)
  | ',' => some (comma, rest)
  | ':' => some (colon, rest)
  | '"' => (scanString [] rest).map fun r => (string ((decodeString r.1).map String.ofList), r.2)
  | '-' => (scanNumeral true rest).map numberOf
  | c => if c.isDigit then (scanNumeral false (c :: rest)).map numberOf else scanWord (c :: rest)

def isSpace (c : Char) : Bool := c == ' ' || c == '\t' || c == '\n' || c == '\r'

/-- At most `fuel` tokens. Each token takes a character, so the length of a text is fuel enough. -/
def scanAll : Nat → List Char → Option (List Token)
  | 0, _ => none
  | fuel + 1, cs =>
    match cs.dropWhile isSpace with
    | [] => some []
    | c :: rest => do
      let (token, rest) ← scanOne c rest
      let tokens ← scanAll fuel rest
      some (token :: tokens)

/-- The tokens of a text. -/
def scan (cs : List Char) : Option (List Token) := scanAll (cs.length + 1) cs

end Token

end Runbook.Json
