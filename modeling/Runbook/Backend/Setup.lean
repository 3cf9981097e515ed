import Runbook.Backend.Mock
import Runbook.Backend.Router
import Runbook.Config
import Runbook.Host

/-!
# Setting up backends

The backends of a run are the sources of its configuration, and a file of scenarios that answers for
all other urns if there is one. All files are loaded, and all of them have to be right.

* `Config.sources` lists what is to be loaded,
* `Config.router` loads it.
-/

namespace Runbook

/-- Why a file of scenarios cannot be used. -/
inductive ScenarioError where
  | unreadable (error : FileError)
  | malformed
  deriving Repr, DecidableEq

/-- The message leaves out what the reader of the format has to say of a malformed text. -/
def ScenarioError.message : ScenarioError → String
  | unreadable error => "io error: " ++ error.message
  | malformed => "json error"

/-- A file of scenarios and the backend that it is for. -/
structure ScenarioFile where
  name : String
  urnPrefix : String
  path : Path
  /-- Where in the configuration the file is named. -/
  location : Location
  /-- The code of the rule that the file can be used. -/
  reference : String
  deriving Repr, DecidableEq

namespace ScenarioFile

/-- The issue of a file that cannot be used. -/
def issue (f : ScenarioFile) (e : ScenarioError) : Issue :=
  Config.issue f.location ("load scenarios `" ++ f.path.text ++ "` failed: " ++ e.message)
    f.reference

/-- The backend for the text of a file. -/
def registration (f : ScenarioFile) : Except FileError String → Except Issue Registration
  | .error e => .error (f.issue (.unreadable e))
  | .ok s =>
    match Mock.parse? s with
    | some mock => .ok ⟨f.name, f.urnPrefix, mock.execute⟩
    | none => .error (f.issue .malformed)

/-- The router for backends, or all issues in report order. -/
def router (loaded : List (Except Issue Registration)) : Except (List Issue) Router :=
  let issues := loaded.filterMap fun
    | .error i => some i
    | .ok _ => none
  if issues.isEmpty then
    .ok ⟨loaded.filterMap fun
      | .error _ => none
      | .ok r => some r⟩
  else .error (Issue.sort issues)

end ScenarioFile

namespace Config

/-- The name of the backend that answers for all urns. -/
def catchAllName : String := "cli-mock"

/-- The files of scenarios of a configuration, and the one for all urns. -/
def sources (c : Config) (catchAll : Option Path) : List ScenarioFile :=
  c.backends.entries.map (fun e =>
    { name := e.1
      urnPrefix := e.2.urnPrefix
      path := e.2.scenarios
      location := (sourceLocation e.1).key scenariosField
      reference := "runner.config.backend.load" }) ++
  catchAll.toList.map fun path =>
    { name := catchAllName
      urnPrefix := ""
      path := path
      location := .root
      reference := "runner.mock_scenarios.load" }

/-- Loads the backends of a configuration. -/
def router {m : Type → Type} [Monad m] [Host m] (c : Config) (catchAll : Option Path) :
    m (Except (List Issue) Router) := do
  let loaded ← (c.sources catchAll).mapM fun f => do
    return f.registration (← Host.readText f.path)
  return ScenarioFile.router loaded

end Config

end Runbook
