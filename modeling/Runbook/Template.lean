import Runbook.Text.Cut

/-!
# Texts with placeholders

A placeholder `${name}` in a text stands for the value of a variable, and `${name:-fallback}` stands
for the fallback if the variable has no value. What is put in is not looked at again.

* `Template.parse` cuts a text into its parts,
* `Template.expand` puts values in place of the placeholders; the first placeholder that has no
  value decides what is wrong.
-/

namespace Runbook.Template

inductive Part where
  | text (chars : List Char)
  /-- A placeholder with what stands between its braces. -/
  | placeholder (body : List Char)
  /-- The beginning of a placeholder that does not end. -/
  | unterminated
  deriving Repr, DecidableEq

inductive Error where
  | unterminated
  | unnamed (body : String)
  | unset (name : String)
  deriving Repr, DecidableEq

/-- A placeholder as it is written, for what stands between its braces. -/
def enclose (body : String) : String := "$\x7b" ++ body ++ "\x7d"

def Error.message : Error → String
  | unterminated => "unterminated env placeholder `$\x7b...`"
  | unnamed body => "empty env placeholder `" ++ enclose body ++ "`"
  | unset name => "missing env var for placeholder `" ++ enclose name ++ "`"

/-! ### Parts of a text -/

/-- What begins a placeholder. -/
def opening : List Char := ['$', '{']

/-- What ends a placeholder. -/
def closing : List Char := ['}']

/-- The parts of a text, from left to right. -/
def parse (cs : List Char) : List Part :=
  match _begins : Text.cutAt opening cs with
  | none => [.text cs]
  | some (before, inside) =>
    match _ends : Text.cutAt closing inside with
    | none => [.text before, .unterminated]
    | some (body, after) => .text before :: .placeholder body :: parse after
termination_by cs.length
decreasing_by
  have := Text.length_after_lt (by decide) _begins
  have := Text.length_after_lt (by decide) _ends
  omega

/-- What separates a name from its fallback. -/
def fallbackMark : List Char := [':', '-']

/-- The name in a placeholder, and the fallback if it has one. -/
def nameAndFallback (body : List Char) : List Char × Option (List Char) :=
  match Text.cutAt fallbackMark body with
  | some (name, fallback) => (name, some fallback)
  | none => (body, none)

/-- The names of the placeholders of a text. -/
def names (parts : List Part) : List String :=
  parts.filterMap fun
    | .placeholder body => some (String.ofList (nameAndFallback body).1)
    | _ => none

/-! ### Values -/

/-- What stands for a part. -/
def expandPart (value? : String → Option String) : Part → Except Error (List Char)
  | .text chars => .ok chars
  | .unterminated => .error .unterminated
  | .placeholder body =>
    let (name, fallback) := nameAndFallback body
    if name.isEmpty then .error (.unnamed (String.ofList body))
    else
      match value? (String.ofList name), fallback with
      | some v, _ => .ok v.toList
      | none, some chars => .ok chars
      | none, none => .error (.unset (String.ofList name))

/-- Puts values in place of the placeholders. -/
def expandParts (value? : String → Option String) : List Part → Except Error (List Char)
  | [] => .ok []
  | p :: rest => do
    let chars ← expandPart value? p
    let others ← expandParts value? rest
    .ok (chars ++ others)

/-- The text with values in place of its placeholders. -/
def expand (value? : String → Option String) (s : String) : Except Error String :=
  (expandParts value? (parse s.toList)).map String.ofList

end Runbook.Template
