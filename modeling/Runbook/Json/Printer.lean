import Runbook.Json

/-!
# Writing JSON texts

`compact` writes a value without any space between its tokens, `pretty` gives every item and member
a line of its own, indented by two blanks for each level. Both escape quotes, backslashes and
control characters and nothing else.
-/

namespace Runbook.Json

def hexDigit (n : Nat) : Char := if n < 10 then Char.ofNat (48 + n) else Char.ofNat (87 + n)

/-- How a character is written inside a string. -/
def escape (c : Char) : List Char :=
  match c with
  | '"' => ['\\', '"']
  | '\\' => ['\\', '\\']
  | '\x08' => ['\\', 'b']
  | '\x0c' => ['\\', 'f']
  | '\n' => ['\\', 'n']
  | '\r' => ['\\', 'r']
  | '\t' => ['\\', 't']
  | c =>
    if c.toNat < 0x20 then
      ['\\', 'u', '0', '0', hexDigit (c.toNat / 16), hexDigit (c.toNat % 16)]
    else [c]

def quote (s : String) : String := "\"" ++ String.ofList (s.toList.flatMap escape) ++ "\""

def Number.text : Number → String
  | integer n => toString n
  | real x => Decimal.Notation.scientific.write x

mutual

/-- The text of a value on one line. -/
def compact : Json → String
  | null => "null"
  | bool b => if b then "true" else "false"
  | number n => n.text
  | string s => quote s
  | array items => "[" ++ compactItems items ++ "]"
  | object members => "\x7b" ++ compactMembers members ++ "\x7d"
  | unreadable => "null"

def compactItems : List Json → String
  | [] => ""
  | [j] => j.compact
  | j :: rest => j.compact ++ "," ++ compactItems rest

def compactMembers : List (String × Json) → String
  | [] => ""
  | [(name, j)] => quote name ++ ":" ++ j.compact
  | (name, j) :: rest => quote name ++ ":" ++ j.compact ++ "," ++ compactMembers rest

end

/-- The beginning of a line at a level. -/
def indent (level : Nat) : String := "\n" ++ String.ofList (List.replicate (2 * level) ' ')

mutual

/-- The text of a value at a level, on as many lines as it has parts. -/
def prettyAt (level : Nat) : Json → String
  | array [] => "[]"
  | array items => "[" ++ prettyItems (level + 1) items ++ indent level ++ "]"
  | object [] => "\x7b\x7d"
  | object members => "\x7b" ++ prettyMembers (level + 1) members ++ indent level ++ "\x7d"
  | null => "null"
  | bool b => if b then "true" else "false"
  | number n => n.text
  | string s => quote s
  | unreadable => "null"

def prettyItems (level : Nat) : List Json → String
  | [] => ""
  | [j] => indent level ++ j.prettyAt level
  | j :: rest => indent level ++ j.prettyAt level ++ "," ++ prettyItems level rest

def prettyMembers (level : Nat) : List (String × Json) → String
  | [] => ""
  | [(name, j)] => indent level ++ quote name ++ ": " ++ j.prettyAt level
  | (name, j) :: rest =>
    indent level ++ quote name ++ ": " ++ j.prettyAt level ++ "," ++ prettyMembers level rest

end

/-- The text of a value, laid out for reading. -/
def pretty (j : Json) : String := j.prettyAt 0

end Runbook.Json
