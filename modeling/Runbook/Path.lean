import Runbook.Text.Cut

/-!
# File paths

A path is a text whose names are separated by slashes. Empty pieces and single dots lead nowhere
else and are skipped, except for what a path begins with: the slash of an absolute path, or a single
dot.

* `Path.prefixes` lists the paths that lead to the file of a path and to the folders around it,
* `Path.parent?`, `Path.extension?`, `Path.join` take paths apart and put them together.
-/

namespace Runbook

structure Path where
  text : String
  deriving Repr, DecidableEq

namespace Path

/-- The texts between the slashes of a path. -/
def pieces (p : Path) : List String := (Text.split '/' p.text.toList).map String.ofList

/-- Whether a piece leads somewhere else. -/
def isName (piece : String) : Bool := piece != "" && piece != "."

def isAbsolute (p : Path) : Bool := p.text.toList.head? == some '/'

/-- What is fixed at the beginning of a path, and the other pieces. -/
def begin (p : Path) : List String × List String :=
  match p.pieces with
  | "." :: rest => (["."], rest)
  | "" :: rest => if p.isAbsolute then ([""], rest) else ([], rest)
  | pieces => ([], pieces)

/-- The path that a fixed beginning makes alone, if it makes one. -/
def ofBeginning : List String → List Path
  | ["."] => [⟨"."⟩]
  | [""] => [⟨"/"⟩]
  | _ => []

/-- The paths that end with one of some pieces, which are given last piece first. -/
def prefixesOf (beginning : List String) : List String → List Path
  | [] => ofBeginning beginning
  | piece :: outer =>
    if isName piece then
      ⟨Text.join "/" (beginning ++ (piece :: outer).reverse)⟩ :: prefixesOf beginning outer
    else prefixesOf beginning outer

/-- The path without what it ends with after its last name, then the folder that holds the file of
this path, then the folder around it, and so on. -/
def prefixes (p : Path) : List Path := prefixesOf p.begin.1 p.begin.2.reverse

/-- The folder that holds the file of a path. For a single name that is the path without pieces. -/
def parent? (p : Path) : Option Path :=
  match p.prefixes with
  | [] => none
  | [_] => if p.isAbsolute then none else some ⟨""⟩
  | _ :: outer :: _ => some outer

/-- The last name of a path. -/
def name? (p : Path) : Option String := (p.begin.2.reverse.find? isName).filter (· != "..")

/-- What follows the last dot of the last name, unless the name begins with this dot. -/
def extension? (p : Path) : Option String := do
  match (Text.split '.' (← p.name?).toList).reverse with
  | ending :: before :: rest =>
    if before.isEmpty && rest.isEmpty then none else some (String.ofList ending)
  | _ => none

/-- The path that leads first to `p` and then along `q`. An absolute path leads there by itself. -/
def join (p q : Path) : Path :=
  if q.isAbsolute then q
  else if p.text.isEmpty || p.text.toList.getLast? == some '/' then ⟨p.text ++ q.text⟩
  else ⟨p.text ++ "/" ++ q.text⟩

end Path

end Runbook
