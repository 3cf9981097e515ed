import Runbook.Path

/-!
# What surrounds the program

Commands read and write files and look at environment variables. `Host m` says how this is done in a
monad `m`; all that commands need beyond it is built here from its operations.

* `FileError` tells why a file operation failed,
* `Host.readText` reads a file that has to be UTF-8,
* `Host.writeText` writes a file and makes the folders it lies in.
-/

namespace Runbook

/-! ### Failures -/

inductive FileError where
  /-- The operating system refused, for a reason that has a number. -/
  | system (number : Nat) (reason : String)
  /-- A path holds the character zero. -/
  | zeroInPath
  /-- A file that should be a text is none. -/
  | notText
  deriving Repr, DecidableEq

namespace FileError

def notFound : FileError := system 2 "No such file or directory"

def alreadyExists : FileError := system 17 "File exists"

def notFolder : FileError := system 20 "Not a directory"

def isFolder : FileError := system 21 "Is a directory"

def nameTooLong : FileError := system 36 "File name too long"

def message : FileError → String
  | system number reason => reason ++ " (os error " ++ toString number ++ ")"
  | zeroInPath => "file name contained an unexpected NUL byte"
  | notText => "stream did not contain valid UTF-8"

end FileError

/-! ### Operations -/

/-- Access to files, folders and environment variables. -/
class Host (m : Type → Type) where
  readFile : Path → m (Except FileError ByteArray)
  /-- Writes a file in place of what it held before. -/
  writeFile : Path → ByteArray → m (Except FileError Unit)
  /-- Makes a folder in a folder that exists. -/
  makeFolder : Path → m (Except FileError Unit)
  isFolder : Path → m Bool
  getVariable : String → m (Option String)

namespace Host

variable {m : Type → Type} [Monad m] [Host m]

/-- The text of a file. -/
def readText (p : Path) : m (Except FileError String) := do
  match ← readFile p with
  | .error e => return .error e
  | .ok bytes =>
    match String.fromUTF8? bytes with
    | some s => return .ok s
    | none => return .error .notText

/-- Makes a folder unless it is there. -/
def ensureFolder (p : Path) : m (Except FileError Unit) := do
  match ← makeFolder p with
  | .ok () => return .ok ()
  | .error e => if ← isFolder p then return .ok () else return .error e

/-- Makes the first of some folders, each of which lies in the next one. The outer ones are made
only if the first one cannot be made without them. -/
def ensureFolders : List Path → m (Except FileError Unit)
  | [] => return .ok ()
  | p :: outer => do
    match ← makeFolder p with
    | .ok () => return .ok ()
    | .error e =>
      if e = .notFound then
        match ← ensureFolders outer with
        | .error e => return .error e
        | .ok () => ensureFolder p
      else if ← isFolder p then return .ok ()
      else return .error e

/-- Writes a text to a file, in a folder that is made if need be. -/
def writeText (p : Path) (s : String) : m (Except FileError Unit) := do
  match ← ensureFolders p.prefixes.tail with
  | .error e => return .error e
  | .ok () => writeFile p s.toUTF8

end Host

end Runbook
