import Runbook.AlertData
import Runbook.Backend.Mock
import Runbook.Backend.Router
import Runbook.Backend.Setup
import Runbook.Command.Line
import Runbook.Command.Run
import Runbook.Config.Load
import Runbook.Document
import Runbook.Graph.Build
import Runbook.Host
import Runbook.Host.Memory
import Runbook.Issue.Json
import Runbook.Json.Printer
import Runbook.Main
import Runbook.Path
import Runbook.Proofs.Graph.Mirror
import Runbook.Proofs.Run.Calls
import Runbook.Proofs.Run.Outcome
import Runbook.Report
import Runbook.Report.Json
import Runbook.Run
import Runbook.Yaml.Printer
import Runbook.Proofs.Run.Scopes
import Runbook.Proofs.Run.Sessions
import Runbook.Proofs.Run.Settled
import Runbook.Proofs.Run.Stages
import Runbook.Proofs.Run.Rounds
import Runbook.Proofs.Run.Histories
import Runbook.Proofs.Run.Cancelled
import Runbook.Proofs.Run.Places
import Runbook.Proofs.Run.Reported
import Runbook.Proofs.Run.Sources
import Runbook.Proofs.Run.Lockstep
import Runbook.Proofs.Run.Twins
import Runbook.Proofs.Run.Isolated
import Runbook.Proofs.Run.Early
import Runbook.Proofs.Run.Policies
import Runbook.Proofs.Graph.Numbering
import Runbook.Proofs.Issue
import Runbook.Proofs.Graph.Verdict
import Runbook.Proofs.Graph.Checked
import Runbook.Proofs.Run.Linked
import Runbook.Proofs.Run.Failures
import Runbook.Proofs.Run.Foreseen
import Runbook.Proofs.Run.Traversal
import Runbook.Proofs.Backend.Router
import Runbook.Proofs.Config.Routing
import Runbook.Proofs.Run.Interleavings
import Runbook.Proofs.Run.Exports
import Runbook.Proofs.Graph.Defects
import Runbook.Proofs.Codec
import Runbook.Proofs.Run.Wakeups
import Runbook.Proofs.Graph.Strays
import Runbook.Proofs.Graph.Filling
import Runbook.Proofs.Graph.Warnings
import Runbook.Proofs.Run.Starved
import Runbook.Proofs.Text
import Runbook.Proofs.Condition.Parsing
import Runbook.Proofs.Condition.Comparing
import Runbook.Proofs.Run.Choices
import Runbook.Proofs.Reference
import Runbook.Proofs.Scope.Broadcast
import Runbook.Proofs.Scope.Coherence
import Runbook.Proofs.Report
import Runbook.Proofs.Run.Closed
import Runbook.Proofs.Backend.Answering
import Runbook.Proofs.Backend.Mock
import Runbook.Proofs.Config.Checking
import Runbook.Proofs.Template
import Runbook.Proofs.Decimal
import Runbook.Proofs.Json
import Runbook.Proofs.Literal
import Runbook.Proofs.Scope.Versions
import Runbook.Proofs.Run.Versions
