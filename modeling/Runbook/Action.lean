import Runbook.Dict
import Runbook.Text.Cut

/-!
# Actions

An action is called by its urn with texts as inputs and answers with a raw payload and named output
fields, or fails.

A `Backend` answers calls. Its answer may depend on the calls it has answered before, so a backend
that keeps state is one as well.
-/

namespace Runbook

/-- What a successful action puts out. -/
structure ActionResult where
  raw : String := ""
  fields : Dict String String := ∅
  deriving DecidableEq

/-- Why a call has no result. -/
inductive ActionError where
  | noScenario (urn : String)
  /-- The action ran and failed. -/
  | failed (urn reason : String)
  | noRoute (urn : String)
  /-- Several backends are registered under the longest prefix of the urn. -/
  | ambiguousRoute (urn prefixText : String) (backends : List String)
  deriving Repr, DecidableEq

def ActionError.message : ActionError → String
  | noScenario urn => "no scenario found for action `" ++ urn ++ "`"
  | failed _ reason => reason
  | noRoute urn => "no backend registered for action `" ++ urn ++ "`"
  | ambiguousRoute urn prefixText backends =>
    "ambiguous route for action `" ++ urn ++ "`: prefix `" ++ prefixText ++
      "` matched multiple backends [" ++ Text.join "," backends ++ "]"

/-- A call of an action. -/
structure ActionCall where
  urn : String
  inputs : Dict String String
  deriving DecidableEq

/-- Answers a call, given the calls answered before, the latest first. -/
abbrev Backend := List ActionCall → ActionCall → Except ActionError ActionResult

end Runbook
