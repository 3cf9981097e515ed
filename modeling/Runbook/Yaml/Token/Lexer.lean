import Runbook.Yaml.Token

/-!
# Splitting a YAML text into tokens

Blocks are marked by indentation, and a key by the colon that comes after it. So the lexer keeps the
columns of the open block collections, and for each level of flow collections the place of the last
token that may turn out to begin a key. When the colon comes, the token `Token.key` is put in at
that place, with the beginning of a block mapping before it if the key is indented further than the
collections that are open.

* `Token.scan` answers the tokens of a text, or `none` if it has none.
-/

namespace Runbook.Yaml

/-- A token that may begin a key. -/
structure Candidate where
  position : Position
  /-- How many tokens come before it. -/
  count : Nat
  /-- Whether it can be nothing but a key. -/
  required : Bool

structure Lexer where
  cursor : Cursor
  tokens : Array Token := #[]
  /-- The candidate in the innermost flow collection. -/
  candidate : Option Candidate := none
  /-- The candidates around it, one for each flow collection, the innermost first. -/
  outer : List (Option Candidate) := []
  /-- The columns of the open block collections, the innermost first. -/
  indents : List Nat := []
  /-- Whether a key may begin here. -/
  keyAllowed : Bool := true

namespace Lexer

def inFlow (l : Lexer) : Bool := !l.outer.isEmpty

/-- The column of the innermost block collection. -/
def indent (l : Lexer) : Int :=
  match l.indents with
  | [] => -1
  | n :: _ => n

def push (l : Lexer) (t : Token) : Lexer := { l with tokens := l.tokens.push t }

/-- Puts a token in after the first `count` tokens. -/
def insertAt (l : Lexer) (count : Nat) (t : Token) : Lexer :=
  { l with tokens := l.tokens.insertIdxIfInBounds count t }

/-! ### Indentation -/

/-- Opens a block collection at a column, unless one is open there or further in. -/
def openBlock (l : Lexer) (column count : Nat) (t : Token) : Lexer :=
  if l.inFlow || decide ((column : Int) ≤ l.indent) then l
  else { l.insertAt count t with indents := column :: l.indents }

/-- Closes block collections, as many as there are elements for which `p` holds. -/
def closeWhile (p : Nat → Bool) (tokens : Array Token) : List Nat → Array Token × List Nat
  | [] => (tokens, [])
  | n :: rest => if p n then closeWhile p (tokens.push .blockEnd) rest else (tokens, n :: rest)

/-- Closes the block collections that are further in than a column. -/
def closeBlocks (l : Lexer) (column : Int) : Lexer :=
  if l.inFlow then l
  else
    let (tokens, indents) := closeWhile (fun n => decide (column < n)) l.tokens l.indents
    { l with tokens := tokens, indents := indents }

/-! ### Candidates for keys -/

/-- Forgets the candidate. One that is required must not be forgotten. -/
def dropCandidate (l : Lexer) : Option Lexer :=
  if l.candidate.any Candidate.required then none else some { l with candidate := none }

/-- Makes the next token a candidate, if a key may begin here. -/
def saveCandidate (l : Lexer) : Option Lexer :=
  if !l.keyAllowed then some l
  else do
    -- At the column of a block mapping nothing but a key can begin.
    let required := !l.inFlow && l.indent == (l.cursor.column : Int)
    some { ← l.dropCandidate with candidate := some ⟨l.cursor.position, l.tokens.size, required⟩ }

/-- How many characters a key may have. -/
def keyLimit : Nat := 1024

/-- A key is on the line of its colon, and not too long. -/
def isStale (p : Position) (k : Candidate) : Bool :=
  decide (k.position.line < p.line) || decide (k.position.index + keyLimit < p.index)

/-- Forgets a candidate that has become stale. -/
def refresh (p : Position) : Option Candidate → Option (Option Candidate)
  | none => some none
  | some k => if isStale p k then if k.required then none else some none else some (some k)

def refreshCandidates (l : Lexer) : Option Lexer := do
  let outer ← l.outer.mapM (refresh l.cursor.position)
  let candidate ← refresh l.cursor.position l.candidate
  some { l with candidate := candidate, outer := outer }

/-! ### Going to the next token -/

/-- Skips blanks, comments and line breaks. Where a key may begin in a block, tabs are not skipped.
A byte order mark is skipped at the beginning of the text. -/
def skipGapFrom (inFlow keyAllowed inComment : Bool) (p : Position) :
    List Char → Bool × Cursor
  | [] => (keyAllowed, ⟨p, []⟩)
  | c :: cs =>
    if isBreak c then skipGapFrom inFlow (keyAllowed || !inFlow) false (p.after c) cs
    else if inComment || c == ' ' || (c == '\t' && (inFlow || !keyAllowed)) then
      skipGapFrom inFlow keyAllowed inComment (p.after c) cs
    else if c == '#' then skipGapFrom inFlow keyAllowed true (p.after c) cs
    else if c == '\ufeff' && p.index == 0 then
      skipGapFrom inFlow keyAllowed false (p.after c) cs
    else (keyAllowed, ⟨p, c :: cs⟩)

def skipGap (l : Lexer) : Lexer :=
  let (keyAllowed, cursor) :=
    skipGapFrom l.inFlow l.keyAllowed false l.cursor.position l.cursor.rest
  { l with cursor := cursor, keyAllowed := keyAllowed }

/-! ### Taking tokens -/

/-- Adds a token that ends at a cursor. -/
def take (l : Lexer) (t : Token) (after : Cursor) : Lexer := { l.push t with cursor := after }

/-- Takes a token after which all block collections are closed. -/
def takeBetweenDocuments (l : Lexer) (r : Token × Cursor) : Option Lexer := do
  let l ← (l.closeBlocks (-1)).dropCandidate
  some { l.take r.1 r.2 with keyAllowed := false }

/-- Takes a token that may begin a key. -/
def takeNode (l : Lexer) (r : Token × Cursor) : Option Lexer := do
  let l ← l.saveCandidate
  some { l.take r.1 r.2 with keyAllowed := false }

def openFlow (l : Lexer) (t : Token) : Option Lexer := do
  let l ← l.saveCandidate
  some
    { l.take t l.cursor.next with
      candidate := none, outer := l.candidate :: l.outer, keyAllowed := true }

def closeFlow (l : Lexer) (t : Token) : Option Lexer := do
  let l ← l.dropCandidate
  let l : Lexer :=
    match l.outer with
    | [] => l
    | k :: outer => { l with candidate := k, outer := outer }
  some { l.take t l.cursor.next with keyAllowed := false }

def takeComma (l : Lexer) : Option Lexer := do
  let l ← l.dropCandidate
  some { l.take .comma l.cursor.next with keyAllowed := true }

/-- Opens a block collection that begins with an indicator at the cursor. -/
def openBlockHere (l : Lexer) (t : Token) : Option Lexer :=
  if l.inFlow then some l
  else if l.keyAllowed then some (l.openBlock l.cursor.column l.tokens.size t)
  else none

def takeItem (l : Lexer) : Option Lexer := do
  let l ← (← l.openBlockHere .blockSequence).dropCandidate
  some { l.take .item l.cursor.next with keyAllowed := true }

def takeKey (l : Lexer) : Option Lexer := do
  let l ← (← l.openBlockHere .blockMapping).dropCandidate
  some { l.take .key l.cursor.next with keyAllowed := !l.inFlow }

/-- Takes a colon. If there is a candidate it was a key. -/
def takeValue (l : Lexer) : Option Lexer :=
  match l.candidate with
  | some k =>
    -- The key is put in first, so the block mapping that begins with it comes before it.
    let l := (l.insertAt k.count .key).openBlock k.position.column k.count .blockMapping
    some { l.take .value l.cursor.next with candidate := none, keyAllowed := false }
  | none => do
    let l ← l.openBlockHere .blockMapping
    some { l.take .value l.cursor.next with keyAllowed := !l.inFlow }

def takeBlockScalar (l : Lexer) (style : Style) : Option Lexer := do
  let l ← l.dropCandidate
  let (text, after) ← blockScalar (style == .literal) l.indent l.cursor.next
  some { l.take (.scalar style (String.ofList text)) after with keyAllowed := true }

def takeQuoted (l : Lexer) (style : Style) (r : Option (List Char × Cursor)) : Option Lexer := do
  let (text, after) ← r
  l.takeNode (.scalar style (String.ofList text), after)

def takePlain (l : Lexer) : Option Lexer := do
  let s ← plain l.inFlow (l.indent + 1) l.cursor
  let l ← l.takeNode (.scalar .plain (String.ofList s.text), s.after)
  some { l with keyAllowed := l.keyAllowed || s.broken }

/-- Characters that do not begin a plain scalar. -/
def indicators : List Char :=
  ['-', '?', ':', ',', '[', ']', '{', '}', '#', '&', '*', '!', '|', '>', '\'', '"', '%', '@', '`']

/-- Whether a plain scalar begins with `c`, which is followed by `cs`. -/
def beginsPlain (inFlow : Bool) (c : Char) (cs : List Char) : Bool :=
  (isInk c && !indicators.contains c) || (c == '-' && !(cs.head?.any isBlank)) ||
    (!inFlow && (c == '?' || c == ':') && !atGap cs)

/-- Takes the token at the cursor, where no gap is. -/
def takeToken (l : Lexer) (c : Char) (cs : List Char) : Option Lexer :=
  let next := l.cursor.next
  let lineStart := l.cursor.column == 0
  if lineStart && c == '%' then (readDirective next).bind l.takeBetweenDocuments
  else if lineStart && atDocumentMark (c :: cs) then
    let t : Token := if c == '-' then .documentStart else .documentEnd
    l.takeBetweenDocuments (t, l.cursor.skip 3)
  else if c == '[' then l.openFlow .flowSequence
  else if c == '{' then l.openFlow .flowMapping
  else if c == ']' then l.closeFlow .flowSequenceEnd
  else if c == '}' then l.closeFlow .flowMappingEnd
  else if c == ',' then l.takeComma
  else if c == '-' && atGap cs then l.takeItem
  else if c == '?' && (l.inFlow || atGap cs) then l.takeKey
  else if c == ':' && (l.inFlow || atGap cs) then l.takeValue
  else if c == '*' then
    (readName next).bind fun r => l.takeNode (.alias r.1, r.2)
  else if c == '&' then
    (readName next).bind fun r => l.takeNode (.anchor r.1, r.2)
  else if c == '!' then (readTag l.inFlow next).bind l.takeNode
  else if c == '|' && !l.inFlow then l.takeBlockScalar .literal
  else if c == '>' && !l.inFlow then l.takeBlockScalar .folded
  else if c == '\'' then l.takeQuoted .singleQuoted (singleQuoted next)
  else if c == '"' then l.takeQuoted .doubleQuoted (doubleQuoted next)
  else if beginsPlain l.inFlow c cs then l.takePlain
  else none

/-- Closes what is open at the end of the text. -/
def finish (l : Lexer) : Option (List Token) := do
  let l ← (l.closeBlocks (-1)).dropCandidate
  some l.tokens.toList

/-- Takes all tokens, at most `fuel` of them. -/
def run : Nat → Lexer → Option (List Token)
  | 0, _ => none
  | fuel + 1, l => do
    let l ← l.skipGap.refreshCandidates
    let l := l.closeBlocks l.cursor.column
    match l.cursor.rest with
    | [] => l.finish
    | c :: cs => run fuel (← l.takeToken c cs)

end Lexer

/-- The tokens of a text. Every token has a character of its own, so there are not more tokens to
take than characters. -/
def Token.scan (text : String) : Option (List Token) :=
  let cs := text.toList
  if !cs.all isAllowed then none
  else Lexer.run (cs.length + 1) { cursor := .start (normalizeBreaks cs) }

end Runbook.Yaml
