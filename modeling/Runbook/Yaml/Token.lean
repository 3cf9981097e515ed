import Runbook.Yaml.Scalar.Block
import Runbook.Yaml.Scalar.Flow

/-!
# Tokens of YAML texts

The tokens that consist of one indicator and a name or value of their own: tags, anchors, aliases
and directives. Each reader is given a cursor after the indicator.

* `readTag` answers the handle and the suffix of a tag; a verbatim tag has an empty handle,
* `readName` reads the name of an anchor or an alias,
* `readDirective` reads a `%YAML` or `%TAG` line.
-/

namespace Runbook.Yaml

/-- How a scalar is written. -/
inductive Style where
  | plain
  | singleQuoted
  | doubleQuoted
  | literal
  | folded
  deriving Repr, DecidableEq

inductive Token where
  | version (major minor : Nat)
  | tagHandle (handle uri : String)
  | documentStart
  | documentEnd
  | blockSequence
  | blockMapping
  | blockEnd
  | flowSequence
  | flowSequenceEnd
  | flowMapping
  | flowMappingEnd
  /-- The `-` before an item. -/
  | item
  | comma
  | key
  | value
  | alias (name : String)
  | anchor (name : String)
  | tag (handle suffix : String)
  | scalar (style : Style) (text : String)
  deriving Repr, DecidableEq

/-! ### Names -/

/-- The name of an anchor or alias. It has to be followed by a gap or by certain indicators. -/
def readName (c : Cursor) : Option (String × Cursor) :=
  let (name, after) := c.span isWordChar
  let ends : Bool :=
    match after.rest with
    | [] => true
    | x :: _ => !isInk x || ['?', ':', ',', ']', '}', '%', '@', '`'].contains x
  if name.isEmpty || !ends then none else some (String.ofList name, after)

/-! ### Tags -/

/-- Characters of a tag that stand for themselves, `%` apart. -/
def isTagChar (verbatim : Bool) (c : Char) : Bool :=
  isWordChar c ||
    [';', '/', '?', ':', '@', '&', '=', '+', '$', '.', '!', '~', '*', '\'', '(', ')'].contains c ||
    (verbatim && [',', '[', ']'].contains c)

/-- How many bytes follow the first byte of a character in UTF-8. -/
def trailingBytes? (byte : Nat) : Option Nat :=
  if byte < 0x80 then some 0
  else if byte < 0xC0 then none
  else if byte < 0xE0 then some 1
  else if byte < 0xF0 then some 2
  else if byte < 0xF8 then some 3
  else none

/-- Reads the characters of a tag, in reverse onto `text`. Escaped bytes have to come in the groups
of UTF-8, of which `missing` bytes are still to come; each is kept as the character of its number,
since bytes other than ASCII occur in no known tag. -/
def tagCharsFrom (verbatim : Bool) (text : List Char) (missing : Nat) (p : Position) :
    List Char → Option (List Char × Cursor)
  | '%' :: a :: b :: cs =>
    match hexDigit? a, hexDigit? b with
    | some x, some y =>
      let byte := 16 * x + y
      let after := ((p.after '%').after a).after b
      match missing with
      | 0 =>
        match trailingBytes? byte with
        | some n => tagCharsFrom verbatim (Char.ofNat byte :: text) n after cs
        | none => none
      | n + 1 =>
        if 0x80 ≤ byte && byte < 0xC0 then
          tagCharsFrom verbatim (Char.ofNat byte :: text) n after cs
        else none
    | _, _ => none
  | c :: cs =>
    if c == '%' then none
    else if missing == 0 && isTagChar verbatim c then
      tagCharsFrom verbatim (c :: text) 0 (p.after c) cs
    else if missing == 0 then some (text.reverse, ⟨p, c :: cs⟩)
    else none
  | [] => if missing == 0 then some (text.reverse, ⟨p, []⟩) else none

def tagChars (verbatim : Bool) (c : Cursor) : Option (List Char × Cursor) :=
  tagCharsFrom verbatim [] 0 c.position c.rest

/-- The characters of a tag, at least one. -/
def someTagChars (verbatim : Bool) (c : Cursor) : Option (List Char × Cursor) :=
  (tagChars verbatim c).filter fun r => !r.1.isEmpty

/-- Reads `!<uri>`, for a cursor after the `<`. -/
def readVerbatimTag (c : Cursor) : Option (Token × Cursor) := do
  let (uri, c) ← someTagChars true c
  if c.rest.head? == some '>' then some (.tag "" (String.ofList uri), c.next) else none

/-- Reads `!handle!suffix`, `!suffix` or `!`. The single `!` is a tag with an empty handle. -/
def readShortTag (c : Cursor) : Option (Token × Cursor) := do
  let (name, after) := c.span isWordChar
  if after.rest.head? == some '!' then
    let (suffix, c) ← someTagChars false after.next
    some (.tag ("!" ++ String.ofList name ++ "!") (String.ofList suffix), c)
  else
    let (more, c) ← tagChars false after
    let suffix := name ++ more
    if suffix.isEmpty then some (.tag "" "!", c) else some (.tag "!" (String.ofList suffix), c)

/-- A tag, for a cursor after its `!`. A gap has to follow, or a comma inside a flow collection. -/
def readTag (inFlow : Bool) (c : Cursor) : Option (Token × Cursor) := do
  let (t, c) ← if c.rest.head? == some '<' then readVerbatimTag c.next else readShortTag c
  if atGap c.rest || (inFlow && c.rest.head? == some ',') then some (t, c) else none

/-! ### Directives -/

/-- The greatest number of digits of a version. -/
def versionDigits : Nat := 9

def readVersionNumber (c : Cursor) : Option (Nat × Cursor) :=
  let (digits, after) := c.span Char.isDigit
  if digits.isEmpty || versionDigits < digits.length then none
  else some (digits.foldl (fun n d => n * 10 + (d.toNat - 48)) 0, after)

def readVersion (c : Cursor) : Option (Token × Cursor) := do
  let (major, c) ← readVersionNumber (c.skipWhile isBlank)
  if c.rest.head? != some '.' then none
  let (minor, c) ← readVersionNumber c.next
  some (.version major minor, c)

/-- Reads `!`, `!!` or `!name!` and the beginning of the tags it stands for. -/
def readTagHandle (c : Cursor) : Option (Token × Cursor) := do
  let c := c.skipWhile isBlank
  if c.rest.head? != some '!' then none
  let (name, c) := c.next.span isWordChar
  let closed := c.rest.head? == some '!'
  if !closed && !name.isEmpty then none
  let handle := "!" ++ String.ofList name ++ (if closed then "!" else "")
  let c := if closed then c.next else c
  if !(c.rest.head?.any isBlank) then none
  let (uri, c) ← someTagChars true (c.skipWhile isBlank)
  if atGap c.rest then some (.tagHandle handle (String.ofList uri), c) else none

/-- A directive and the rest of its line, for a cursor after the `%`. -/
def readDirective (c : Cursor) : Option (Token × Cursor) := do
  let (name, c) := c.span isWordChar
  if !atGap c.rest then none
  let (t, c) ←
    match String.ofList name with
    | "YAML" => readVersion c
    | "TAG" => readTagHandle c
    | _ => none
  some (t, ← c.skipComment?)

end Runbook.Yaml
