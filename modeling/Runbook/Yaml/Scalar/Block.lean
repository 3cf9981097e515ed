import Runbook.Yaml.Cursor

/-!
# Block scalars

A block scalar holds the lines that are indented at least as far as its first line. In a literal
scalar all line breaks count; in a folded one a single break between two lines that do not begin
with a blank is a space. Which breaks at the end are kept is a matter of the header.

* `blockScalar` reads the header and the lines.
-/

namespace Runbook.Yaml

/-- What becomes of the breaks after the last line. -/
inductive Chomping where
  | strip
  /-- Keeps the break that ends the last line. -/
  | clip
  | keep
  deriving DecidableEq

/-- What stands after the `|` or `>`. -/
structure BlockHeader where
  chomping : Chomping := .clip
  /-- How far the lines are indented, if it is said. -/
  indentation : Option Nat := none

def chomping? : Char → Option Chomping
  | '+' => some .keep
  | '-' => some .strip
  | _ => none

def indentation? (c : Char) : Option Nat :=
  if '1' ≤ c && c ≤ '9' then some (c.toNat - 48) else none

/-- Reads the indicators of a header, in either order. An indentation of zero ends the header, so
what follows it is refused. -/
def blockHeader (c : Cursor) : BlockHeader × Cursor :=
  match c.rest with
  | a :: b :: _ =>
    match chomping? a, indentation? a, chomping? b, indentation? b with
    | some k, _, _, some n => (⟨k, some n⟩, c.skip 2)
    | some k, _, _, none => (⟨k, none⟩, c.next)
    | none, some n, some k, _ => (⟨k, some n⟩, c.skip 2)
    | none, some n, none, _ => (⟨.clip, some n⟩, c.next)
    | none, none, _, _ => ({}, c)
  | [a] =>
    match chomping? a, indentation? a with
    | some k, _ => (⟨k, none⟩, c.next)
    | none, some n => (⟨.clip, some n⟩, c.next)
    | none, none => ({}, c)
  | [] => ({}, c)

/-- The empty lines at the beginning of a block scalar. -/
structure Lead where
  /-- The length of the longest run of spaces at the beginning of a line. -/
  widest : Nat
  /-- The breaks, the last one first. -/
  breaks : List Char
  after : Cursor

/-- Reads empty lines, and the spaces of the line after them up to the column `indent`. Where the
indentation is not known all spaces are read. A tab may not stand among the spaces. -/
def leadFrom (indent : Option Nat) (widest : Nat) (breaks : List Char) (p : Position) :
    List Char → Option Lead
  | [] => some ⟨max widest p.column, breaks, ⟨p, []⟩⟩
  | c :: cs =>
    let inside := indent.all fun n => decide (p.column < n)
    if inside && c == ' ' then leadFrom indent widest breaks (p.after c) cs
    else if inside && c == '\t' then none
    else if isBreak c then leadFrom indent (max widest p.column) (c :: breaks) (p.after c) cs
    else some ⟨max widest p.column, breaks, ⟨p, c :: cs⟩⟩

/-- What has been read of a block scalar. -/
structure BlockText where
  /-- The text in reverse. -/
  text : List Char := []
  /-- The break that ended the last line. -/
  ending : Option Char := none
  /-- The breaks of empty lines after it, the last one first. -/
  breaks : List Char := []
  /-- Whether the last line began with a blank. -/
  indented : Bool := false

namespace BlockText

/-- Joins the last line to one that begins with `c`. -/
def beginLine (literal : Bool) (b : BlockText) (c : Char) : BlockText :=
  let folds := !literal && b.ending == some '\n' && !b.indented && !isBlank c
  let joined :=
    if folds then if b.breaks.isEmpty then ' ' :: b.text else b.text
    else b.ending.toList ++ b.text
  { text := b.breaks ++ joined, indented := isBlank c }

/-- The whole text. -/
def finish (chomping : Chomping) (b : BlockText) : List Char :=
  let ending := b.ending.toList
  match chomping with
  | .strip => b.text.reverse
  | .clip => (ending ++ b.text).reverse
  | .keep => (b.breaks ++ ending ++ b.text).reverse

end BlockText

/-- Reads lines that begin at the column `indent`. `inLine` tells whether the beginning of a line
has been read. -/
def blockLines (literal : Bool) (indent : Nat) (b : BlockText) (inLine : Bool) (p : Position) :
    List Char → Option (BlockText × Cursor)
  | [] => some (b, ⟨p, []⟩)
  | c :: cs =>
    if inLine then
      if isBreak c then
        blockLines literal indent { b with ending := some c } false (p.after c) cs
      else blockLines literal indent { b with text := c :: b.text } true (p.after c) cs
    else if c == ' ' && p.column < indent then blockLines literal indent b false (p.after c) cs
    else if c == '\t' && p.column < indent then none
    else if isBreak c then
      blockLines literal indent { b with breaks := c :: b.breaks } false (p.after c) cs
    else if p.column == indent then
      let b := b.beginLine literal c
      blockLines literal indent { b with text := c :: b.text } true (p.after c) cs
    else some (b, ⟨p, c :: cs⟩)

/-- The text of a block scalar inside a collection at the column `parent`, for a cursor after the
`|` or `>`. The parent of a scalar outside of all collections is -1. -/
def blockScalar (literal : Bool) (parent : Int) (c : Cursor) : Option (List Char × Cursor) := do
  let (header, c) := blockHeader c
  let c ← c.skipComment?
  let given := header.indentation.map fun n => parent.toNat + n
  let lead ← leadFrom given 0 [] c.position c.rest
  let indent := given.getD (max lead.widest (max (parent + 1).toNat 1))
  let (b, after) ←
    blockLines literal indent { breaks := lead.breaks } false lead.after.position lead.after.rest
  some (b.finish header.chomping, after)

end Runbook.Yaml
