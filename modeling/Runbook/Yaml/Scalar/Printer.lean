import Runbook.Yaml.Schema

/-!
# Writing YAML scalars

A text is written so that reading it gives the same text again, in the plainest style that allows
it.

* `styleOf` chooses the style: literal for texts with line feeds, plain for texts that need no
  quotes, single quotes where those are enough, and else double quotes,
* `writeScalar` writes a text in a style.
-/

namespace Runbook.Yaml

/-! ### What texts consist of -/

/-- Whether a character may be written as it is. -/
def isPrintable (c : Char) : Bool :=
  let n := c.toNat
  n == 0x0A || (0x20 ≤ n && n ≤ 0x7E) || (0xA0 ≤ n && n ≤ 0xFFFD && n != 0xFEFF) || 0x10000 ≤ n

/-- Whether somewhere a character that satisfies `p` stands right before one that satisfies `q`. -/
def adjacent (p q : Char → Bool) : List Char → Bool
  | a :: b :: rest => (p a && q b) || adjacent p q (b :: rest)
  | _ => false

def isSpace (c : Char) : Bool := c == ' '

/-- Characters that mean something at the beginning of a plain scalar. -/
def indicators : List Char :=
  ['#', ',', '[', ']', '{', '}', '&', '*', '!', '|', '>', '\'', '"', '%', '@', '`']

/-- Whether a text begins like something else than a plain scalar. -/
def beginsWithIndicator : List Char → Bool
  | '-' :: '-' :: '-' :: _ => true
  | '.' :: '.' :: '.' :: _ => true
  | c :: rest => indicators.contains c || ((c == '?' || c == '-') && atGap rest)
  | [] => false

/-- Whether a colon that ends a key is somewhere in a text. -/
def hasKeyMark : List Char → Bool
  | [] => false
  | c :: rest => (c == ':' && atGap rest) || hasKeyMark rest

/-! ### Which styles a text allows -/

/-- Whether a text takes one line. -/
def isSingleLine (cs : List Char) : Bool :=
  !cs.any fun c => isBreak c || c == '\r' || c == '\u0085'

/-- Whether a text can be written without quotes, whatever it would mean. -/
def plainAllowed (cs : List Char) : Bool :=
  cs.all isPrintable && isSingleLine cs && cs.head?.all (!isSpace ·) &&
    cs.getLast?.all (!isSpace ·) && !beginsWithIndicator cs && !hasKeyMark cs &&
    !adjacent isBlank (· == '#') cs

/-- Whether a text can be written in single quotes: no spaces stand at the ends of its lines. -/
def singleQuotesAllowed (cs : List Char) : Bool :=
  cs.all isPrintable && !adjacent isSpace isBreak cs && !adjacent isBreak isSpace cs

/-- Whether a text can be written as lines of its own: none of them ends with a space. -/
def literalAllowed (cs : List Char) : Bool :=
  cs.all isPrintable && !adjacent isSpace isBreak cs && cs.getLast?.all (!isSpace ·)

/-- Whether a plain scalar without a tag is a text. Digits that begin with a zero are one, but are
easily taken for a number. -/
def isPlainText (s : String) : Bool :=
  match atomOfPlain s with
  | .text _ => !isZeroPadded (splitSign s.toList).2
  | _ => false

/-- The style a text is written in. -/
def styleOf (s : String) : Style :=
  let cs := s.toList
  if cs.contains '\n' then
    if literalAllowed cs then .literal else .doubleQuoted
  else if isPlainText s && plainAllowed cs then .plain
  else if singleQuotesAllowed cs then .singleQuoted
  else .doubleQuoted

/-! ### Writing in a style -/

def spaces (n : Nat) : String := String.ofList (List.replicate n ' ')

/-- The characters of a text, with the lines after a break indented. `pending` says whether a break
came last; `escape` is how other characters are written. -/
def indented (indent : Nat) (escape : Char → List Char) (pending : Bool) : List Char → List Char
  | [] => []
  | c :: cs =>
    if isBreak c then c :: indented indent escape true cs
    else
      (if pending then List.replicate indent ' ' else []) ++ escape c ++
        indented indent escape false cs

/-- A quote inside single quotes is written twice. -/
def singleEscape (c : Char) : List Char := if c == '\'' then ['\'', '\''] else [c]

def writeSingleQuoted (indent : Nat) (cs : List Char) : String :=
  let ending := if cs.getLast?.any isBreak then spaces indent else ""
  "'" ++ String.ofList (indented indent singleEscape false cs) ++ ending ++ "'"

/-- The escape of one character that stands for a character. -/
def shortEscape? (c : Char) : Option Char :=
  ['0', 'a', 'b', 't', 'n', 'v', 'f', 'r', 'e', '"', '\\', 'N', '_', 'L', 'P'].find?
    fun e => escapedChar? e == some c

/-- The last `digits` hexadecimal digits of a number. -/
def hexDigits (digits n : Nat) : List Char :=
  match digits with
  | 0 => []
  | digits + 1 =>
    let d := n % 16
    hexDigits digits (n / 16) ++ [Char.ofNat (if d < 10 then d + 48 else d + 55)]

/-- How a character is written inside double quotes. -/
def doubleEscape (c : Char) : List Char :=
  if isPrintable c && !isBreak c && c != '"' && c != '\\' then [c]
  else
    match shortEscape? c with
    | some e => ['\\', e]
    | none =>
      let n := c.toNat
      if n ≤ 0xFF then ['\\', 'x'] ++ hexDigits 2 n
      else if n ≤ 0xFFFF then ['\\', 'u'] ++ hexDigits 4 n
      else ['\\', 'U'] ++ hexDigits 8 n

def writeDoubleQuoted (cs : List Char) : String :=
  "\"" ++ String.ofList (cs.flatMap doubleEscape) ++ "\""

/-- How many columns a collection is indented in the one around it. -/
def indentStep : Nat := 2

/-- The header of a literal scalar: the indentation if the first line does not show it, and what
becomes of the breaks at the end. -/
def literalHeader (cs : List Char) : String :=
  let hint := if cs.head?.any (fun c => isSpace c || isBreak c) then toString indentStep else ""
  let chomping :=
    match cs.reverse with
    | [] => "-"
    | [c] => if isBreak c then "+" else "-"
    | c :: d :: _ => if !isBreak c then "-" else if isBreak d then "+" else ""
  "|" ++ hint ++ chomping

/-- The lines of a literal scalar, the last one ended by a break. -/
def writeLiteral (indent : Nat) (cs : List Char) : String :=
  literalHeader cs ++ "\n" ++ String.ofList (indented indent (fun c => [c]) true cs) ++
    (if cs.getLast?.any isBreak then "" else "\n")

/-- Writes a scalar and ends its line; further lines of it are indented. -/
def writeScalar (indent : Nat) (style : Style) (s : String) : String :=
  match style with
  | .plain => s ++ "\n"
  | .singleQuoted => writeSingleQuoted indent s.toList ++ "\n"
  | .doubleQuoted => writeDoubleQuoted s.toList ++ "\n"
  | .literal => writeLiteral indent s.toList
  | .folded => writeDoubleQuoted s.toList ++ "\n"

end Runbook.Yaml
