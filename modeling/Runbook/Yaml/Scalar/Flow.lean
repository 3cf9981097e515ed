import Runbook.Yaml.Cursor

/-!
# Plain and quoted scalars

A scalar may go on over several lines. Blanks between two words of a line are kept; a line break
between two words is folded into a space, and of several breaks all but the first are kept.

* `plain` reads words up to what cannot belong to a plain scalar,
* `singleQuoted` reads up to the closing quote, a doubled quote standing for one,
* `doubleQuoted` replaces escapes as well.
-/

namespace Runbook.Yaml

/-! ### Gaps between words -/

/-- What has been read since the last word. -/
structure Gap where
  /-- Blanks before any line break, the last one first. -/
  blanks : List Char := []
  /-- Whether a line has ended. -/
  broken : Bool := false
  /-- The break that ended the first line, unless it was escaped. -/
  first : Option Char := none
  /-- The breaks after the first, the last one first. -/
  more : List Char := []

namespace Gap

def isEmpty (g : Gap) : Bool := g.blanks.isEmpty && !g.broken

/-- The gap after an escaped line break. -/
def escapedBreak : Gap := { broken := true }

/-- Adds a blank or a break. Blanks next to a break do not count. -/
def add (g : Gap) (c : Char) : Gap :=
  if isBreak c then
    if g.broken then { g with more := c :: g.more } else { broken := true, first := some c }
  else if g.broken then g
  else { g with blanks := c :: g.blanks }

/-- What a gap between two words stands for. -/
def fold (g : Gap) : List Char :=
  if !g.broken then g.blanks.reverse
  else
    match g.first with
    | some '\n' => if g.more.isEmpty then [' '] else g.more.reverse
    | some c => c :: g.more.reverse
    | none => g.more.reverse

/-- Adds what the gap stands for to a text in reverse. -/
def addTo (g : Gap) (text : List Char) : List Char := g.fold.reverse ++ text

end Gap

/-! ### Plain scalars -/

/-- The indicators of flow collections, which end a plain scalar inside of one. -/
def flowIndicators : List Char := [',', '[', ']', '{', '}']

/-- Whether the text goes on with what makes a colon ambiguous inside a flow collection. -/
def atAmbiguousColon : List Char → Bool
  | ':' :: c :: _ => c == '?' || flowIndicators.contains c
  | _ => false

/-- Whether the text goes on with what ends a plain scalar in the middle of a line. -/
def atPlainEnd (inFlow : Bool) : List Char → Bool
  | [] => true
  | c :: cs => (c == ':' && atGap cs) || (inFlow && flowIndicators.contains c)

/-- A plain scalar that was read. -/
structure Plain where
  text : List Char
  /-- Whether a line has ended since its last word. -/
  broken : Bool
  after : Cursor

/-- Reads on after `text`, which is in reverse, and `gap`. Lines that go on a scalar in a block
collection begin at the column `indent` or later. -/
def plainFrom (inFlow : Bool) (indent : Int) (text : List Char) (gap : Gap) (p : Position) :
    List Char → Option Plain
  | [] => some ⟨text.reverse, gap.broken, ⟨p, []⟩⟩
  | c :: cs =>
    let outdented := decide ((p.column : Int) < indent)
    let done : Plain := ⟨text.reverse, gap.broken, ⟨p, c :: cs⟩⟩
    if !isInk c then
      if gap.broken && c == '\t' && outdented then none
      else plainFrom inFlow indent text (gap.add c) (p.after c) cs
    else if !gap.isEmpty && !inFlow && outdented then some done
    else if !gap.isEmpty && (c == '#' || (p.column == 0 && atDocumentMark (c :: cs))) then some done
    else if inFlow && atAmbiguousColon (c :: cs) then none
    else if atPlainEnd inFlow (c :: cs) then some done
    else plainFrom inFlow indent (c :: gap.addTo text) {} (p.after c) cs

/-- Reads a plain scalar. -/
def plain (inFlow : Bool) (indent : Int) (c : Cursor) : Option Plain :=
  plainFrom inFlow indent [] {} c.position c.rest

/-! ### Quoted scalars -/

/-- Reads on after `text`, which is in reverse, and `gap`. -/
def singleQuotedFrom (text : List Char) (gap : Gap) (p : Position) :
    List Char → Option (List Char × Cursor)
  | [] => none
  | '\'' :: '\'' :: cs =>
    singleQuotedFrom ('\'' :: gap.addTo text) {} ((p.after '\'').after '\'') cs
  | c :: cs =>
    if !isInk c then singleQuotedFrom text (gap.add c) (p.after c) cs
    else if p.column == 0 && atDocumentMark (c :: cs) then none
    else if c == '\'' then some ((gap.addTo text).reverse, ⟨p.after c, cs⟩)
    else singleQuotedFrom (c :: gap.addTo text) {} (p.after c) cs

/-- The text in single quotes, for a cursor after the opening quote. -/
def singleQuoted (c : Cursor) : Option (List Char × Cursor) :=
  singleQuotedFrom [] {} c.position c.rest

/-- What an escape of one character stands for. -/
def escapedChar? : Char → Option Char
  | '0' => some '\x00'
  | 'a' => some '\x07'
  | 'b' => some '\x08'
  | 't' => some '\t'
  | '\t' => some '\t'
  | 'n' => some '\n'
  | 'v' => some '\x0b'
  | 'f' => some '\x0c'
  | 'r' => some '\r'
  | 'e' => some '\x1b'
  | ' ' => some ' '
  | '"' => some '"'
  | '/' => some '/'
  | '\\' => some '\\'
  | 'N' => some '\u0085'
  | '_' => some '\u00a0'
  | 'L' => some '\u2028'
  | 'P' => some '\u2029'
  | _ => none

/-- How many hexadecimal digits follow an escape. -/
def escapedDigits? : Char → Option Nat
  | 'x' => some 2
  | 'u' => some 4
  | 'U' => some 8
  | _ => none

def hexDigit? (c : Char) : Option Nat :=
  if c.isDigit then some (c.toNat - 48)
  else if 'a' ≤ c && c ≤ 'f' then some (c.toNat - 87)
  else if 'A' ≤ c && c ≤ 'F' then some (c.toNat - 55)
  else none

/-- The character with a number, if there is one. -/
def charOfNat? (n : Nat) : Option Char := if n.isValidChar then some (Char.ofNat n) else none

/-- What is being read in double quotes. -/
inductive Quoting where
  | text
  /-- The backslash of an escape was read. -/
  | escape
  /-- Of a numeric escape, `left + 1` digits are missing. -/
  | digits (left value : Nat)

/-- Reads on after `text`, which is in reverse, and `gap`. -/
def doubleQuotedFrom (text : List Char) (gap : Gap) (q : Quoting) (p : Position) :
    List Char → Option (List Char × Cursor)
  | [] => none
  | c :: cs =>
    match q with
    | .digits left value =>
      match hexDigit? c, left with
      | none, _ => none
      | some d, left + 1 => doubleQuotedFrom text gap (.digits left (value * 16 + d)) (p.after c) cs
      | some d, 0 =>
        match charOfNat? (value * 16 + d) with
        | none => none
        | some x => doubleQuotedFrom (x :: text) gap .text (p.after c) cs
    | .escape =>
      if isBreak c then doubleQuotedFrom text .escapedBreak .text (p.after c) cs
      else
        match escapedChar? c, escapedDigits? c with
        | some x, _ => doubleQuotedFrom (x :: text) gap .text (p.after c) cs
        | none, some n => doubleQuotedFrom text gap (.digits (n - 1) 0) (p.after c) cs
        | none, none => none
    | .text =>
      if !isInk c then doubleQuotedFrom text (gap.add c) .text (p.after c) cs
      else if p.column == 0 && atDocumentMark (c :: cs) then none
      else if c == '"' then some ((gap.addTo text).reverse, ⟨p.after c, cs⟩)
      else if c == '\\' then doubleQuotedFrom (gap.addTo text) {} .escape (p.after c) cs
      else doubleQuotedFrom (c :: gap.addTo text) {} .text (p.after c) cs

/-- The text in double quotes, for a cursor after the opening quote. -/
def doubleQuoted (c : Cursor) : Option (List Char × Cursor) :=
  doubleQuotedFrom [] {} .text c.position c.rest

end Runbook.Yaml
