import Runbook.Json.Token

/-!
# Reading JSON texts

`Json.parse` builds the value of a text from its tokens. Arrays and objects that are still open
wait on a stack, innermost first; each token either opens one, ends one or adds to the innermost.

An array or object inside `Json.maxDepth` others is unreadable, and so is an object one of whose
names has no text.
-/

namespace Runbook.Json

/-- How many arrays and objects may be nested in each other. -/
def maxDepth : Nat := 127

/-- An array or object that is not complete, with its parts in reverse. -/
inductive Open where
  | array (items : List Json)
  /-- `name` is the name whose value comes next. -/
  | object (members : List (String × Json)) (readable : Bool) (name : Option String)

/-- What may come next. -/
inductive Expectation where
  | value
  | valueOrClose
  | name
  | nameOrClose
  | colon
  | commaOrClose

/-- Reads the value of an open array or object as complete, inside `depth` others. -/
def Open.close (depth : Nat) (o : Open) : Json :=
  if maxDepth ≤ depth then .unreadable
  else
    match o with
    | .array items => .array items.reverse
    | .object members readable _ => if readable then .object members.reverse else .unreadable

/-- Adds a value to an open array or object. -/
def Open.add (j : Json) : Open → Open
  | .array items => .array (j :: items)
  | .object members readable (some name) => .object ((name, j) :: members) readable none
  | .object members _ none => .object members false none

/-- The values that are one token. -/
def Token.atom? : Token → Option Json
  | .null => some .null
  | .bool b => some (.bool b)
  | .number (some n) => some (.number n)
  | .number none => some .unreadable
  | .string (some s) => some (.string s)
  | .string none => some .unreadable
  | _ => none

/-- What has been read of a text. -/
structure Progress where
  /-- The value, once it is complete. -/
  done : Option Json
  /-- The arrays and objects that are open, innermost first. -/
  stack : List Open
  expected : Expectation

namespace Progress

def start : Progress := ⟨none, [], .value⟩

/-- Adds a complete value. -/
def complete (p : Progress) (j : Json) : Progress :=
  match p.stack with
  | [] => ⟨some j, [], .commaOrClose⟩
  | o :: outer => ⟨none, o.add j :: outer, .commaOrClose⟩

/-- Ends the innermost array or object. -/
def closeTop? (p : Progress) : Option Progress :=
  match p.stack with
  | [] => none
  | o :: outer => some ({ p with stack := outer }.complete (o.close outer.length))

/-- Takes a token that begins a value. -/
def begin? (p : Progress) : Token → Option Progress
  | .openArray => some ⟨none, .array [] :: p.stack, .valueOrClose⟩
  | .openObject => some ⟨none, .object [] true none :: p.stack, .nameOrClose⟩
  | token => token.atom?.map p.complete

/-- Takes the name of a member. -/
def name? (p : Progress) (token : Token) : Option Progress :=
  match token, p.stack with
  | .string (some name), .object members readable _ :: outer =>
    some ⟨none, .object members readable (some name) :: outer, .colon⟩
  | .string none, .object members _ _ :: outer =>
    some ⟨none, .object members false (some "") :: outer, .colon⟩
  | _, _ => none

/-- Takes a token after a complete part of an array or object. -/
def continue? (p : Progress) (token : Token) : Option Progress :=
  match token, p.stack with
  | .comma, .array _ :: _ => some { p with expected := .value }
  | .comma, .object .. :: _ => some { p with expected := .name }
  | .closeArray, .array _ :: _ => p.closeTop?
  | .closeObject, .object .. :: _ => p.closeTop?
  | _, _ => none

/-- Takes the next token, if it may stand here. -/
def take? (p : Progress) (token : Token) : Option Progress :=
  match p.expected, token with
  | .value, _ => p.begin? token
  | .valueOrClose, .closeArray => p.closeTop?
  | .valueOrClose, _ => p.begin? token
  | .name, _ => p.name? token
  | .nameOrClose, .closeObject => p.closeTop?
  | .nameOrClose, _ => p.name? token
  | .colon, .colon => some { p with expected := .value }
  | .colon, _ => none
  | .commaOrClose, _ => p.continue? token

/-- The value that was read, if nothing is open. -/
def value? (p : Progress) : Option Json := if p.stack.isEmpty then p.done else none

end Progress

/-- The value of a JSON text, if it is well formed and nothing follows the value. -/
def parse (s : String) : Option Json := do
  let p ← (← Token.scan s.toList).foldlM Progress.take? .start
  p.value?

end Runbook.Json
