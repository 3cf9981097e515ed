import Runbook.Dict
import Runbook.Yaml.Document
import Runbook.Yaml.Schema

/-!
# Reading YAML nodes as values

Who reads a node knows what kind of value is to be there. Where a list, a table or a record is to be
there, a blank scalar is one without items. A text is read from any scalar as it was written.

Aliases are followed. How many are followed is limited by the size of the document, and so is the
nesting of what is read, whether it is nested in the text or by aliases; so reading ends even for a
node that contains itself.
-/

namespace Runbook.Yaml

/-- Reading nodes; the state is how many aliases may still be followed. -/
abbrev Reading := StateT Nat Option

/-- How deep collections may be nested in each other. -/
def maxDepth : Nat := 128

/-- How many aliases may be followed for each event of a document. -/
def jumpsPerEvent : Nat := 100

/-- Reads a document. -/
def Document.read {α : Type} (d : Document) (r : Reading α) : Option α :=
  (r.run (jumpsPerEvent * d.events)).map Prod.fst

namespace Reading

variable (d : Document)

/-- The node itself, or the node that it refers to. -/
def follow : Yaml → Reading Yaml
  | .alias anchor => do
    match ← get with
    | 0 => failure
    | left + 1 =>
      set left
      match d.target? anchor with
      | some n => pure n
      | none => failure
  | n => pure n

/-! ### Scalars -/

def text (n : Yaml) : Reading String := do
  match ← follow d n with
  | .scalar _ _ s => return s
  | _ => failure

/-- Whether a plain scalar means that there is no value; a null tag has to be right. -/
def isAbsent (tag : Option String) (s : String) : Option Bool :=
  if tag == some (schemaTag "null") then if isNullWord s then some true else none
  else if tag.isSome then some false
  else some (s.isEmpty || isNullWord s)

/-- A text, or nothing where a null is. -/
def optionalText (n : Yaml) : Reading (Option String) := do
  match ← follow d n with
  | .scalar tag .plain s => if ← isAbsent tag s then return none else return some s
  | .scalar _ _ s => return some s
  | _ => failure

/-- The text that stands for a scalar of any kind. -/
def atomText (n : Yaml) : Reading String := do
  match ← follow d n with
  | .scalar tag style s => (atom? tag style s).bind Atom.text?
  | _ => failure

def natural (n : Yaml) : Reading Nat := do
  match ← follow d n with
  | .scalar tag style s => if mayBe "int" tag style then natural? s else failure
  | _ => failure

def bool (n : Yaml) : Reading Bool := do
  match ← follow d n with
  | .scalar tag style s => if mayBe "bool" tag style then bool? s else failure
  | _ => failure

/-- One of several words: a scalar, or a null with the word as its private tag. -/
def word (n : Yaml) : Reading String := do
  match ← follow d n with
  | .scalar (some tag) style s =>
    if isLocalTag tag then
      if style == .plain && (s.isEmpty || isNullWord s) then
        return String.ofList (tag.toList.drop 1)
      else failure
    else return s
  | .scalar none _ s => return s
  | _ => failure

/-! ### Collections -/

/-- The items of a sequence. -/
def items (n : Yaml) : Reading (List Yaml) := do
  match ← follow d n with
  | .sequence _ items => return items
  | n => if n.isBlankScalar then return [] else failure

/-- The pairs of a mapping, whose keys are texts. -/
def members (n : Yaml) : Reading (List (String × Yaml)) := do
  match ← follow d n with
  | .mapping _ pairs => pairs.mapM fun p => do return (← text d p.1, p.2)
  | n => if n.isBlankScalar then return [] else failure

/-- The members of a record whose names are known. None of them may occur twice. -/
def record (names : List String) (n : Yaml) : Reading (List (String × Yaml)) := do
  let known := (← members d n).filter fun m => names.contains m.1
  if (known.map Prod.fst).Nodup then return known else failure

/-- Reads the member `name` of a record, with a value to take when it is missing. -/
def field {α : Type} (fields : List (String × Yaml)) (name : String) (missing : Option α)
    (read : Yaml → Reading α) : Reading α :=
  match fields.lookup name, missing with
  | some n, _ => read n
  | none, some a => pure a
  | none, none => failure

/-- A table. The last member of a name counts. -/
def table {α : Type} (read : Yaml → Reading α) (n : Yaml) : Reading (Dict String α) := do
  let entries ← (← members d n).mapM fun m => do return (m.1, ← read m.2)
  return Dict.ofList entries

/-- What stands for a collection where no more nesting is allowed. -/
def blank {α : Type} (value : α) (n : Yaml) : Reading α := do
  if (← follow d n).isBlankScalar then return value else failure

end Reading

end Runbook.Yaml
