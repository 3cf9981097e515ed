import Runbook.AlertData
import Runbook.Backend.Setup
import Runbook.Command.Check
import Runbook.Report.Json
import Runbook.Yaml.Printer

/-!
# Running documents

A run is prepared in a fixed order, and the first thing that goes wrong ends it: the configuration,
the backends, the document, the alert data. Then the graph is run, and the report is written.

* `Runbook.prepare` builds the graph of a document whose steps all have ids,
* `RunReport` is the outcome of a run together with the status of each step.
-/

namespace Runbook

/-- A document whose steps all have ids, and its graph. -/
structure Prepared where
  document : List Step
  graph : Graph

/-- Gives ids to the steps of a document and builds its graph. -/
def prepare (document : List Step) : Except (List Issue) Prepared :=
  let (document, ids) := IdSource.fresh.fill document
  match (Graph.build document ids).1 with
  | .ok graph => .ok ⟨document, graph⟩
  | .error issues => .error issues

/-! ### The report of a run -/

structure RunReport where
  status : Status
  error : Option String
  /-- How many actions were called. -/
  calls : Nat
  /-- What the outermost scope has exported. -/
  exported : Dict String Value
  steps : List Report

namespace RunReport

def toJson (r : RunReport) : Json :=
  .object ([("status", .string r.status.text)] ++ Report.optionalMember "error" .string r.error ++
    [("totalActionExecutions", .ofNat r.calls)] ++
    (if r.exported.isEmpty then []
      else [("exported", .object (r.exported.entries.map fun e => (e.1, e.2.toJson)))]) ++
    [("nodes", .array (Report.listToJson r.steps))])

def render (r : RunReport) : ReportFormat → String
  | .yaml => (Yaml.ofJson r.toJson).render
  | .json => r.toJson.pretty

end RunReport

/-- Runs a document from its first step. -/
def Prepared.run (p : Prepared) (backend : Backend) (options : Options)
    (seed : Dict String Value) : RunReport :=
  let (outcome, m) := Execution.start ⟨p.graph, backend, options⟩ (.fresh seed)
  { status := Outcome.status outcome
    error := (Outcome.failure? outcome).map Failure.message
    calls := m.executions
    exported := (m.store.scope m.root).exported
    steps := Report.annotate m.store m.root p.document }

/-! ### The command -/

section

variable {m : Type → Type} [Monad m] [Host m]

/-- The configuration of a run, which may have none. -/
def loadConfig : Option Path → m (Except CommandError Config)
  | none => return .ok {}
  | some path => do return (← Config.load path).mapError .configRefused

/-- Reads alert data. -/
def readAlertData (path : Path) : m (Except CommandError (Dict String Value)) := do
  match ← Host.readText path with
  | .error e => return .error (.unreadable path e)
  | .ok s =>
    match AlertData.parse? s with
    | some data => return .ok data
    | none => return .error .alertDataMalformed

/-- Writes a report to a file, if there is one to write to. -/
def writeResult (text : String) : Option Path → m (Except CommandError Unit)
  | none => return .ok ()
  | some path => do return (← Host.writeText path text).mapError (.unwritable path)

/-- Runs a document. -/
def RunCommand.executeT (c : RunCommand) : ExceptT CommandError m CommandOutput := do
  let config ← ExceptT.mk (loadConfig c.config)
  if config.backends.isEmpty && c.scenarios.isNone then throw .noBackends
  let router ← ExceptT.mk do
    return (← config.router c.scenarios).mapError CommandError.backendsRefused
  let document ← ExceptT.mk (readDocument c.document)
  let prepared ← ExceptT.mk (pure ((prepare document).mapError CommandError.documentInvalid))
  let seed ← ExceptT.mk (readAlertData c.alertData)
  let report := prepared.run router.backend config.engine.options seed
  let text := report.render c.format
  ExceptT.mk (writeResult text c.resultFile)
  return ⟨text, report.status == .completed⟩

def RunCommand.execute (c : RunCommand) : m (Except CommandError CommandOutput) :=
  c.executeT.run

/-- Does what a command asks for. -/
def Command.execute : Command → m (Except CommandError CommandOutput)
  | .run c => c.execute
  | .check c => c.execute

end

end Runbook
