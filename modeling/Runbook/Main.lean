import Runbook.Command.Line
import Runbook.Command.Run

/-!
# The program

Reads the command line, does what it asks for and shows the result. The exit code is 0 if the
command succeeded, 2 if it came to a result without success or the command line is refused, and 1 if
it came to no result.
-/

namespace Runbook

/-- The failure with a number, which may also be given as a negative word of 32 bits. Failures that
the library knows have its own wording. -/
def FileError.ofNumber (number : UInt32) (reason : String) : FileError :=
  let n := if number < 0x80000000 then number.toNat else (0 - number).toNat
  let known : List FileError := [notFound, alreadyExists, notFolder, isFolder, nameTooLong]
  let isKnown : FileError → Bool
    | system k _ => k == n
    | _ => false
  (known.find? isKnown).getD (system n reason)

/-- The failure of an operation on files. -/
def FileError.ofIO : IO.Error → FileError
  | .noFileOrDirectory _ number reason => ofNumber number reason
  | .alreadyExists _ number reason => ofNumber number reason
  | .inappropriateType _ number reason => ofNumber number reason
  | .permissionDenied _ number reason => ofNumber number reason
  | .invalidArgument _ number reason => ofNumber number reason
  | .resourceExhausted _ number reason => ofNumber number reason
  | .otherError number reason => ofNumber number reason
  | e => .system 0 (toString e)

/-- Does something that may fail. -/
def attemptIO {α : Type} (action : IO α) : IO (Except FileError α) := do
  try return .ok (← action) catch e => return .error (.ofIO e)

instance : Host IO where
  readFile p := attemptIO (IO.FS.readBinFile p.text)
  writeFile p content := attemptIO (IO.FS.writeBinFile p.text content)
  makeFolder p := attemptIO (IO.FS.createDir p.text)
  isFolder p := do
    try (← IO.FS.realPath p.text).isDir catch _ => return false
  getVariable name := IO.getEnv name

/-- The commands and their options. -/
def CommandLine.usage : String :=
  "run --playbook <file> --alert-data <file> [--mock-scenarios <file>] [--config <file>] " ++
    "[--result-file <file>] [--format yaml|json] [--verbose]\n" ++
    "validate --playbook <file> [--format text|json]"

/-- What is shown for a command line that is refused. -/
def CommandLine.UsageError.message : UsageError → String
  | .noCommand => "a command is required"
  | .unknownCommand => "unrecognized command"
  | .unknownArgument => "unexpected argument found"
  | .missingArgument => "a required argument was not provided"
  | .repeatedArgument => "an argument cannot be used multiple times"
  | .invalidValue => "an argument has no valid value"
  | .unexpectedValue => "an argument that takes no value has one"
  | .helpRequested => CommandLine.usage

/-- Shows the result of a command. -/
def showResult : Except CommandError CommandOutput → IO UInt32
  | .error e => do
    IO.eprintln e.message
    return 1
  | .ok output => do
    IO.println output.text
    return if output.success then 0 else 2

end Runbook

open Runbook

/-- Runs the program on the words of its command line. -/
def main (args : List String) : IO UInt32 := do
  match CommandLine.parse args with
  | .error .helpRequested =>
    IO.println CommandLine.UsageError.helpRequested.message
    return 0
  | .error e =>
    IO.eprintln e.message
    return 2
  | .ok command => showResult (← command.execute)
