import Runbook.Text.Cut

/-!
# References

A text that starts with `@` or `$` stands for a value that is looked up when a step runs.
`Reference.parse?` reads the three well-formed shapes:

* `@alert:key` is a value of the alert,
* `@node:id$field` is an output of a completed action, where the field `raw` is its whole payload,
* `$name` is an exported variable.

`Reference.text` writes a reference back.
-/

namespace Runbook

/-- Which output of an action is meant. -/
inductive OutputField where
  | raw
  | named (name : String)
  deriving Repr, DecidableEq, Ord

/-- What a reference points at. The order of the constructors is the order of references. -/
inductive Reference where
  | alert (key : String)
  | output (node : String) (field : OutputField)
  | exported (name : String)
  deriving Repr, DecidableEq, Ord

namespace Reference

def alertMark : List Char := ['@', 'a', 'l', 'e', 'r', 't', ':']

def nodeMark : List Char := ['@', 'n', 'o', 'd', 'e', ':']

/-- The name that selects the whole payload. -/
def rawName : String := "raw"

/-- Whether a text has to be looked up rather than taken as it stands. -/
def needsLookup (token : String) : Bool :=
  match token.toList with
  | c :: _ => c == '@' || c == '$'
  | [] => false

/-- Reads `id$field`, cut at the first `$`. A field keeps to one line. -/
def parseOutput? (cs : List Char) : Option Reference :=
  match Text.cutAt ['$'] cs with
  | some (node, field) =>
    if node.isEmpty || field.isEmpty || field.contains '\n' then none
    else
      let name := String.ofList field
      some (output (String.ofList node) (if name = rawName then .raw else .named name))
  | none => none

/-- The reference a token spells, if it is well formed. -/
def parse? (token : String) : Option Reference :=
  match Text.dropPrefix? alertMark token.toList with
  | some key => if key.isEmpty then none else some (alert (String.ofList key))
  | none =>
    match Text.dropPrefix? nodeMark token.toList with
    | some rest => parseOutput? rest
    | none =>
      match token.toList with
      | '$' :: name => if name.isEmpty then none else some (exported (String.ofList name))
      | _ => none

/-- The token that spells a reference. -/
def text : Reference → String
  | alert key => "@alert:" ++ key
  | output node .raw => "@node:" ++ node ++ "$" ++ rawName
  | output node (.named name) => "@node:" ++ node ++ "$" ++ name
  | exported name => "$" ++ name

end Reference

end Runbook
