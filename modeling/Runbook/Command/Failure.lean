import Runbook.Config.Load

/-!
# Failures of commands

Why a command comes to no result at all. A run that halts and a document with errors are results.
-/

namespace Runbook

inductive CommandError where
  | unreadable (path : Path) (error : FileError)
  | unwritable (path : Path) (error : FileError)
  | alertDataMalformed
  | documentMalformed (issue : Issue)
  /-- The errors of a document that cannot be run. -/
  | documentInvalid (issues : List Issue)
  | configRefused (error : Config.LoadError)
  | backendsRefused (issues : List Issue)
  | noBackends
  deriving Repr, DecidableEq

/-- The message leaves out what the reader of the format has to say of malformed alert data. -/
def CommandError.message : CommandError → String
  | unreadable path error => "read file failed `" ++ path.text ++ "`: " ++ error.message
  | unwritable path error => "write file failed `" ++ path.text ++ "`: " ++ error.message
  | alertDataMalformed => "alert data parse failed"
  | documentMalformed issue => "playbook parse failed:\n" ++ Issue.listing [issue]
  | documentInvalid issues => "playbook is invalid:\n" ++ Issue.listing issues
  | configRefused error => "runner config load failed: " ++ error.message
  | backendsRefused issues => "action backend setup failed:\n" ++ Issue.listing issues
  | noBackends =>
    "no action backend configured: pass `--mock-scenarios <file>` or `--config <file>`"

/-- The result of a command. -/
structure CommandOutput where
  /-- What is shown. -/
  text : String
  /-- Whether the run was completed, or the document is valid. -/
  success : Bool
  deriving Repr, DecidableEq

end Runbook
