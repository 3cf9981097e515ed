import Runbook.Dict
import Runbook.Host

/-!
# A host in memory

A `FileTree` is the working folder with all files and folders in it, a `Memory` has environment
variables as well. Commands that run on a `Memory` are pure: what they leave behind is again a
`Memory`.

* `FileTree.walk` follows a path, and tells what is at its end or why there is no way,
* what is outside the working folder cannot be seen.
-/

namespace Runbook

inductive FileTree.Entry where
  | folder
  | file (content : ByteArray)

structure FileTree where
  /-- Files and folders by the names that lead to them. The first entry of a place counts. -/
  entries : List (List String × FileTree.Entry)

namespace FileTree

def empty : FileTree := ⟨[]⟩

/-- What is at a place; the working folder is at the empty one. -/
def entry? (t : FileTree) (place : List String) : Option Entry :=
  if place.isEmpty then some .folder else t.entries.lookup place

def put (t : FileTree) (place : List String) (e : Entry) : FileTree := ⟨(place, e) :: t.entries⟩

/-- Adds a file and all folders around it. -/
def add (t : FileTree) (p : Path) (content : ByteArray) : FileTree :=
  let place := p.pieces.filter Path.isName
  let folders := (List.range place.length).map place.take
  (folders.foldl (fun t f => if (t.entry? f).isSome then t else t.put f .folder) t).put place
    (.file content)

/-! ### Following paths -/

/-- What is at the end of a path. -/
inductive Target where
  /-- A folder; one outside the working folder has no place. -/
  | folder (place : Option (List String))
  | file (place : List String) (content : ByteArray)
  /-- Nothing, in a folder that exists. -/
  | vacant (place : List String)

/-- How many bytes a name may have. -/
def maxNameSize : Nat := 255

/-- How many bytes a path may have. -/
def maxPathSize : Nat := 4095

/-- The folder around a folder. -/
def outward : Option (List String) → Option (List String)
  | none => none
  | some [] => none
  | some place => some place.dropLast

/-- Follows the pieces of a path from a folder. -/
def walk (t : FileTree) (here : Option (List String)) : List String → Except FileError Target
  | [] => .ok (.folder here)
  | piece :: rest =>
    if !Path.isName piece then t.walk here rest
    else if piece == ".." then t.walk (outward here) rest
    else if maxNameSize < piece.utf8ByteSize then .error .nameTooLong
    else
      match here with
      | none => .error .notFound
      | some place =>
        match t.entry? (place ++ [piece]) with
        | some .folder => t.walk (some (place ++ [piece])) rest
        | some (.file content) =>
          if rest.isEmpty then .ok (.file (place ++ [piece]) content) else .error .notFolder
        | none => if rest.isEmpty then .ok (.vacant (place ++ [piece])) else .error .notFound

/-- Follows a path, less the slashes at its end if these do not matter. -/
def target (t : FileTree) (p : Path) (trim : Bool) : Except FileError Target :=
  if p.text.toList.contains '\x00' then .error .zeroInPath
  else if p.text.isEmpty then .error .notFound
  else if maxPathSize < p.text.utf8ByteSize then .error .nameTooLong
  else
    let pieces := if trim then (p.pieces.reverse.dropWhile (· == "")).reverse else p.pieces
    t.walk (if p.isAbsolute then none else some []) pieces

/-! ### Operations -/

def read (t : FileTree) (p : Path) : Except FileError ByteArray :=
  match t.target p false with
  | .error e => .error e
  | .ok (.folder _) => .error .isFolder
  | .ok (.file _ content) => .ok content
  | .ok (.vacant _) => .error .notFound

/-- A path that ends with a slash is no path of a file, whether it leads somewhere or not. -/
def write (t : FileTree) (p : Path) (content : ByteArray) : Except FileError FileTree :=
  match t.target p true with
  | .error e => .error e
  | .ok (.folder _) => .error .isFolder
  | .ok (.file place _) => finish place
  | .ok (.vacant place) => finish place
where
  finish (place : List String) : Except FileError FileTree :=
    if p.text.toList.getLast? == some '/' then .error .isFolder
    else .ok (t.put place (.file content))

def makeFolder (t : FileTree) (p : Path) : Except FileError FileTree :=
  match t.target p true with
  | .error e => .error e
  | .ok (.vacant place) => .ok (t.put place .folder)
  | .ok _ => .error .alreadyExists

def isFolder (t : FileTree) (p : Path) : Bool :=
  match t.target p false with
  | .ok (.folder _) => true
  | _ => false

end FileTree

/-! ### The host -/

structure Memory where
  files : FileTree
  environment : Dict String String

namespace Memory

/-- Changes the files, or fails and changes nothing. -/
def update (change : FileTree → Except FileError FileTree) :
    StateM Memory (Except FileError Unit) := do
  let memory ← get
  match change memory.files with
  | .error e => return .error e
  | .ok files =>
    set { memory with files := files }
    return .ok ()

instance : Host (StateM Memory) where
  readFile p := do return (← get).files.read p
  writeFile p content := update fun t => t.write p content
  makeFolder p := update fun t => t.makeFolder p
  isFolder p := do return (← get).files.isFolder p
  getVariable name := do return (← get).environment.get? name

end Memory

end Runbook
