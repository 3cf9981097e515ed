/-!
# Places in a YAML text

A `Cursor` is a place in a text: what follows it, and how far it is from the beginning of the text
and of the line. Line breaks are read after `normalizeBreaks`, so a break is one character: a line
feed, or one of the separators U+2028 and U+2029, which keep their own form.

* `Cursor.next` goes one character on,
* `Cursor.span` takes the characters that satisfy a test.
-/

namespace Runbook.Yaml

/-! ### Characters -/

def isBreak (c : Char) : Bool := c == '\n' || c == '\u2028' || c == '\u2029'

def isBlank (c : Char) : Bool := c == ' ' || c == '\t'

/-- Whether a character neither is a blank nor ends a line. -/
def isInk (c : Char) : Bool := !isBlank c && !isBreak c

/-- Characters of names: letters, digits, `_` and `-` of ASCII. -/
def isWordChar (c : Char) : Bool := c.isAlphanum || c == '_' || c == '-'

/-- Whether a text may contain a character at all. -/
def isAllowed (c : Char) : Bool :=
  let n := c.toNat
  n == 0x09 || n == 0x0A || n == 0x0D || (0x20 ≤ n && n ≤ 0x7E) || n == 0x85 ||
    (0xA0 ≤ n && n ≤ 0xFFFD) || 0x10000 ≤ n

/-- Reads every way of ending a line as a line feed, except for the two separators. -/
def normalizeBreaks : List Char → List Char
  | '\r' :: '\n' :: cs => '\n' :: normalizeBreaks cs
  | '\r' :: cs => '\n' :: normalizeBreaks cs
  | '\u0085' :: cs => '\n' :: normalizeBreaks cs
  | c :: cs => c :: normalizeBreaks cs
  | [] => []

/-- Whether a blank, a line break or the end of the text comes next. -/
def atGap : List Char → Bool
  | [] => true
  | c :: _ => isBlank c || isBreak c

/-- Whether a line break or the end of the text comes next. -/
def atLineEnd : List Char → Bool
  | [] => true
  | c :: _ => isBreak c

/-- Whether `---` or `...` comes next, and nothing joined to it. At the beginning of a line that is
a mark between documents. -/
def atDocumentMark : List Char → Bool
  | '-' :: '-' :: '-' :: cs => atGap cs
  | '.' :: '.' :: '.' :: cs => atGap cs
  | _ => false

/-! ### Positions -/

/-- Counts of the characters before a place: all, and those in the same line; and of the lines. -/
structure Position where
  index : Nat := 0
  line : Nat := 0
  column : Nat := 0
  deriving Repr, DecidableEq

/-- The position after a character. -/
def Position.after (p : Position) (c : Char) : Position :=
  if isBreak c then ⟨p.index + 1, p.line + 1, 0⟩ else ⟨p.index + 1, p.line, p.column + 1⟩

structure Cursor where
  position : Position
  rest : List Char

namespace Cursor

def start (text : List Char) : Cursor := ⟨{}, text⟩

def column (c : Cursor) : Nat := c.position.column

/-- Goes one character on. -/
def next (c : Cursor) : Cursor :=
  match c.rest with
  | [] => c
  | x :: rest => ⟨c.position.after x, rest⟩

/-- Goes `n` characters on. -/
def skip (c : Cursor) : Nat → Cursor
  | 0 => c
  | n + 1 => c.next.skip n

/-- Takes characters while they satisfy `p`. -/
def spanFrom (p : Char → Bool) (position : Position) : List Char → List Char × Cursor
  | [] => ([], ⟨position, []⟩)
  | c :: cs =>
    if p c then
      let (taken, after) := spanFrom p (position.after c) cs
      (c :: taken, after)
    else ([], ⟨position, c :: cs⟩)

/-- The characters at the cursor that satisfy `p`, and the place after them. -/
def span (c : Cursor) (p : Char → Bool) : List Char × Cursor := spanFrom p c.position c.rest

def skipWhile (c : Cursor) (p : Char → Bool) : Cursor := (c.span p).2

/-- Goes to the end of the line if only blanks and a comment are left of it. -/
def skipComment? (c : Cursor) : Option Cursor :=
  let c := c.skipWhile isBlank
  let c := if c.rest.head? == some '#' then c.skipWhile (fun x => !isBreak x) else c
  if atLineEnd c.rest then some c.next else none

end Cursor

end Runbook.Yaml
