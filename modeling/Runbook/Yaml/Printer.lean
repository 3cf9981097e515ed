import Runbook.Json.Printer
import Runbook.Text.Cut
import Runbook.Yaml
import Runbook.Yaml.Scalar.Printer

/-!
# Writing YAML texts

`Yaml.render` writes a node in block style: each item of a sequence and each pair of a mapping has a
line of its own, and what is inside it is indented by `indentStep`. The items of a sequence that
stands under a key are not indented. Empty collections are written with brackets.

A key that takes several lines, or more than `Yaml.maxKeySize` bytes, is marked with `?`.

* `Yaml.ofText`, `Yaml.ofJson` give a text and a JSON value the styles that they are written in.
-/

namespace Runbook.Yaml

/-! ### Nodes for values -/

/-- The scalar for a text. -/
def ofText (s : String) : Yaml := .scalar none (styleOf s) s

mutual

/-- The node for a JSON value. -/
def ofJson : Json → Yaml
  | .null => .scalar none .plain "null"
  | .unreadable => .scalar none .plain "null"
  | .bool b => .scalar none .plain (if b then "true" else "false")
  | .number n => .scalar none .plain n.text
  | .string s => ofText s
  | .array items => .sequence none (listOfJson items)
  | .object members => .mapping none (pairsOfJson members)

def listOfJson : List Json → List Yaml
  | [] => []
  | j :: rest => ofJson j :: listOfJson rest

def pairsOfJson : List (String × Json) → List (Yaml × Yaml)
  | [] => []
  | (name, j) :: rest => (ofText name, ofJson j) :: pairsOfJson rest

end

/-! ### Keys -/

/-- How many bytes a key without a mark may have. -/
def maxKeySize : Nat := 128

/-- Whether a key may be followed by its value in the same line. -/
def isSimpleKey : Yaml → Bool
  | .scalar _ _ s => isSingleLine s.toList && s.utf8ByteSize ≤ maxKeySize
  | _ => false

/-- The text of a simple key. -/
def simpleKey (indent : Nat) : Yaml → String
  | .scalar _ .plain s => s
  | .scalar _ .singleQuoted s => writeSingleQuoted (indent + indentStep) s.toList
  | .scalar _ _ s => writeDoubleQuoted s.toList
  | _ => ""

/-! ### Nodes -/

/-- Lines that belong to parts at one level, each part but the first indented. -/
def atLevel (indent : Nat) (parts : List String) : String := Text.join (spaces indent) parts

mutual

/-- What follows the mark of an item, or of a marked key or its value, that is indented by
`indent`: a scalar, or a collection that begins in the same line. -/
def afterMark (indent : Nat) : Yaml → String
  | .scalar _ style s => " " ++ writeScalar (indent + indentStep) style s
  | .sequence _ [] => " []\n"
  | .sequence _ items =>
    " " ++ atLevel (indent + indentStep) (itemTexts (indent + indentStep) items)
  | .mapping _ [] => " \x7b\x7d\n"
  | .mapping _ pairs =>
    " " ++ atLevel (indent + indentStep) (pairTexts (indent + indentStep) pairs)
  | .alias anchor => " *" ++ toString anchor ++ "\n"

/-- What follows the colon of a simple key that is indented by `indent`. -/
def afterKey (indent : Nat) : Yaml → String
  | .scalar _ style s => " " ++ writeScalar (indent + indentStep) style s
  | .sequence _ [] => " []\n"
  | .sequence _ items => "\n" ++ spaces indent ++ atLevel indent (itemTexts indent items)
  | .mapping _ [] => " \x7b\x7d\n"
  | .mapping _ pairs =>
    "\n" ++ spaces (indent + indentStep) ++
      atLevel (indent + indentStep) (pairTexts (indent + indentStep) pairs)
  | .alias anchor => " *" ++ toString anchor ++ "\n"

/-- The lines of each item. -/
def itemTexts (indent : Nat) : List Yaml → List String
  | [] => []
  | n :: rest => ("-" ++ afterMark indent n) :: itemTexts indent rest

/-- The lines of each pair. -/
def pairTexts (indent : Nat) : List (Yaml × Yaml) → List String
  | [] => []
  | (k, v) :: rest =>
    (if isSimpleKey k then simpleKey indent k ++ ":" ++ afterKey indent v
      else "?" ++ afterMark indent k ++ spaces indent ++ ":" ++ afterMark indent v) ::
        pairTexts indent rest

end

/-- The text of a node. -/
def render : Yaml → String
  | .scalar _ style s => writeScalar indentStep style s
  | .sequence _ [] => "[]\n"
  | .sequence _ items => atLevel 0 (itemTexts 0 items)
  | .mapping _ [] => "\x7b\x7d\n"
  | .mapping _ pairs => atLevel 0 (pairTexts 0 pairs)
  | .alias anchor => "*" ++ toString anchor ++ "\n"

end Runbook.Yaml
