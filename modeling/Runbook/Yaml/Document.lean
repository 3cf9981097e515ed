import Runbook.Yaml
import Runbook.Yaml.Token.Lexer

/-!
# Building YAML documents

`Document.ofTokens?` builds the tree of a document from its tokens. A text has at most one document.
Where a node may stand and none does, it is blank.

Anchors are numbered: a name gets the number of names that were known before. A name that is
anchored once more gets a new number in this way, which can be that of another name; of two nodes
with one number the later one counts, for every alias of the document.
-/

namespace Runbook.Yaml

/-- What is known while a document is built. -/
structure Builder where
  /-- The tokens to come. -/
  tokens : List Token
  /-- Names of anchors with their numbers. -/
  names : List (String × Nat) := []
  /-- How many anchored nodes have begun. -/
  begun : Nat := 0
  /-- Numbers of anchors with the nodes that count for them, the latest first. -/
  anchors : List (Nat × Nat) := []
  /-- The anchored nodes that are complete. -/
  nodes : List (Nat × Yaml) := []
  /-- Handles of tags and what they stand for. -/
  handles : List (String × String) := []
  events : Nat := 0

abbrev Building := StateT Builder Option

namespace Building

/-! ### Tokens -/

def peek : Building (Option Token) := do return (← get).tokens.head?

def drop : Building Unit := modify fun b => { b with tokens := b.tokens.tail }

/-- Takes the next token if it is `t`. -/
def accept (t : Token) : Building Bool := do
  if (← peek) == some t then
    drop
    return true
  else return false

def count (events : Nat) : Building Unit := modify fun b => { b with events := b.events + events }

/-- A blank node. -/
def blank : Building Yaml := do
  count 1
  return Yaml.blank

/-! ### Anchors and tags -/

/-- The tag that a handle and a suffix stand for. -/
def resolveTag (handle suffix : String) : Building String := do
  if handle.isEmpty then return suffix
  match (← get).handles.lookup handle with
  | some uri => return uri ++ suffix
  | none => failure

/-- Reads an anchor and a tag, in either order. -/
def properties : Building (Option String × Option String) := do
  match ← peek with
  | some (.anchor name) =>
    drop
    match ← peek with
    | some (.tag handle suffix) =>
      drop
      return (some name, some (← resolveTag handle suffix))
    | _ => return (some name, none)
  | some (.tag handle suffix) =>
    drop
    match ← peek with
    | some (.anchor name) =>
      drop
      return (some name, some (← resolveTag handle suffix))
    | _ => return (none, some (← resolveTag handle suffix))
  | _ => return (none, none)

/-- Begins a node with an anchor, and answers the number of the node. -/
def beginAnchored (name : String) : Building Nat := do
  let b ← get
  -- A name that was used before keeps its place and goes on to stand for the new node.
  let number := b.names.length
  let names :=
    if (b.names.lookup name).isSome then
      b.names.map fun n => if n.1 == name then (name, number) else n
    else (name, number) :: b.names
  set { b with names := names, begun := b.begun + 1, anchors := (number, b.begun) :: b.anchors }
  return b.begun

/-- Builds a node that may have an anchor. -/
def anchored (name : Option String) (build : Building Yaml) : Building Yaml := do
  match name with
  | none => build
  | some name =>
    let number ← beginAnchored name
    let node ← build
    modify fun b => { b with nodes := (number, node) :: b.nodes }
    return node

/-- The tag of a scalar. The single `!` says no more than that there is a scalar. -/
def scalarTag (tag : Option String) : Option String := tag.filter (· != "!")

/-- A node of which only properties were written. -/
def empty (name tag : Option String) : Building Yaml :=
  if name.isNone && tag.isNone then failure
  else
    anchored name do
      count 1
      return .scalar tag .plain ""

/-! ### Nodes -/

mutual

/-- A node. Block collections occur where `inBlock` holds, and `unindented` tells whether a sequence
may begin at the column of the mapping it is in. -/
def node (fuel : Nat) (inBlock unindented : Bool) : Building Yaml :=
  match fuel with
  | 0 => failure
  | fuel + 1 => do
    match ← peek with
    | some (.alias name) =>
      drop
      count 1
      match (← get).names.lookup name with
      | some number => return .alias number
      | none => failure
    | _ =>
      let (name, tag) ← properties
      match ← peek, inBlock with
      | some .item, _ =>
        if unindented then
          anchored name do
            count 2
            return .sequence tag (← unindentedItems fuel)
        else empty name tag
      | some (.scalar style text), _ =>
        drop
        anchored name do
          count 1
          return .scalar (scalarTag tag) style text
      | some .flowSequence, _ =>
        drop
        anchored name do
          count 2
          return .sequence tag (← flowItems fuel true)
      | some .flowMapping, _ =>
        drop
        anchored name do
          count 2
          return .mapping tag (← flowPairs fuel true)
      | some .blockSequence, true =>
        drop
        anchored name do
          count 2
          return .sequence tag (← blockItems fuel)
      | some .blockMapping, true =>
        drop
        anchored name do
          count 2
          return .mapping tag (← blockPairs fuel)
      | _, _ => empty name tag

/-- A node in a block, blank if one of the given tokens comes next. -/
def blockNode (fuel : Nat) (unindented : Bool) (enders : List Token) : Building Yaml :=
  match fuel with
  | 0 => failure
  | fuel + 1 => do
    if (← peek).any enders.contains then blank else node fuel true unindented

/-- A node in a flow collection, blank if one of the given tokens comes next. -/
def flowNode (fuel : Nat) (enders : List Token) : Building Yaml :=
  match fuel with
  | 0 => failure
  | fuel + 1 => do
    if (← peek).any enders.contains then blank else node fuel false false

def blockItems (fuel : Nat) : Building (List Yaml) :=
  match fuel with
  | 0 => failure
  | fuel + 1 => do
    if ← accept .item then
      let item ← blockNode fuel false [.item, .blockEnd]
      return item :: (← blockItems fuel)
    else if ← accept .blockEnd then return []
    else failure

def unindentedItems (fuel : Nat) : Building (List Yaml) :=
  match fuel with
  | 0 => failure
  | fuel + 1 => do
    if ← accept .item then
      let item ← blockNode fuel false [.item, .key, .value, .blockEnd]
      return item :: (← unindentedItems fuel)
    else return []

/-- The pairs of a block mapping. A pair may lack its value, but not the mark of its key. -/
def blockPairs (fuel : Nat) : Building (List (Yaml × Yaml)) :=
  match fuel with
  | 0 => failure
  | fuel + 1 => do
    if ← accept .key then
      let key ← blockNode fuel true [.key, .value, .blockEnd]
      let value ←
        if ← accept .value then blockNode fuel true [.key, .value, .blockEnd] else blank
      return (key, value) :: (← blockPairs fuel)
    else if ← accept .blockEnd then return []
    else failure

/-- The items of a flow sequence. An item that begins with the mark of a key is a mapping with one
pair. -/
def flowItems (fuel : Nat) (first : Bool) : Building (List Yaml) :=
  match fuel with
  | 0 => failure
  | fuel + 1 => do
    if ← accept .flowSequenceEnd then return []
    if !first then
      if !(← accept .comma) then failure
    if ← accept .flowSequenceEnd then return []
    else if ← accept .key then
      count 2
      let pair ← singlePair fuel
      return .mapping none [pair] :: (← flowItems fuel false)
    else
      let item ← node fuel false false
      return item :: (← flowItems fuel false)

/-- The pair of a mapping that is an item of a flow sequence. Where the key is blank, the token that
shows this is taken as well. -/
def singlePair (fuel : Nat) : Building (Yaml × Yaml) :=
  match fuel with
  | 0 => failure
  | fuel + 1 => do
    let bare := (← peek).any [Token.value, .comma, .flowSequenceEnd].contains
    let key ← if bare then (do drop; blank) else node fuel false false
    let value ←
      if ← accept .value then flowNode fuel [.comma, .flowSequenceEnd] else blank
    return (key, value)

/-- The pairs of a flow mapping. A node without the mark of a key has a blank value. -/
def flowPairs (fuel : Nat) (first : Bool) : Building (List (Yaml × Yaml)) :=
  match fuel with
  | 0 => failure
  | fuel + 1 => do
    if ← accept .flowMappingEnd then return []
    if !first then
      if !(← accept .comma) then failure
    if ← accept .flowMappingEnd then return []
    else if ← accept .key then
      let key ← flowNode fuel [.value, .comma, .flowMappingEnd]
      let value ←
        if ← accept .value then flowNode fuel [.comma, .flowMappingEnd] else blank
      return (key, value) :: (← flowPairs fuel false)
    else
      let key ← node fuel false false
      let value ← blank
      return (key, value) :: (← flowPairs fuel false)

end

/-! ### Documents -/

/-- The handles that are known in every document. -/
def commonHandles : List (String × String) := [("!", "!"), ("!!", "tag:yaml.org,2002:")]

/-- Whether a version of the language is understood. -/
def isKnownVersion (major minor : Nat) : Bool := major == 1 && (minor == 1 || minor == 2)

/-- Reads directives: at most one version, and handles that differ from each other. -/
def directives (hasVersion : Bool) : List Token → Building Unit
  | .version major minor :: rest => do
    if hasVersion || !isKnownVersion major minor then failure
    drop
    directives true rest
  | .tagHandle handle uri :: rest => do
    let b ← get
    if (b.handles.lookup handle).isSome then failure
    set { b with handles := (handle, uri) :: b.handles }
    drop
    directives hasVersion rest
  | _ => pure ()

/-- Takes the marks of a document's end. -/
def documentEnds : List Token → Building Unit
  | .documentEnd :: rest => do
    drop
    documentEnds rest
  | _ => pure ()

/-- Whether a token stands between documents. -/
def isDocumentMark : Token → Bool
  | .version .. | .tagHandle .. | .documentStart | .documentEnd => true
  | _ => false

/-- The node of a document that is introduced by directives and a mark. -/
def explicitRoot (fuel : Nat) : Building Yaml := do
  directives false (← get).tokens
  if !(← accept .documentStart) then failure
  modify fun b => { b with handles := b.handles ++ commonHandles }
  match ← peek with
  | none => blank
  | some t => if isDocumentMark t then blank else node fuel true false

/-- The node of the only document, if there is one. -/
def root (fuel : Nat) : Building (Option Yaml) := do
  match ← peek with
  | none => return none
  | some t =>
    let begins : Bool :=
      match t with
      | .version .. | .tagHandle .. | .documentStart => true
      | _ => false
    let r ←
      if begins then explicitRoot fuel
      else do
        modify fun b => { b with handles := commonHandles }
        node fuel true false
    documentEnds (← get).tokens
    if (← peek).isSome then failure
    return some r

end Building

/-- How much deeper the building of a node can be nested for each of its tokens. -/
def stepsPerToken : Nat := 3

/-- The document that some tokens make up. -/
def Document.ofTokens? (tokens : List Token) : Option Document := do
  let (root, b) ← (Building.root (stepsPerToken * (tokens.length + 1))).run { tokens := tokens }
  some ⟨root, b.anchors, b.nodes, b.events⟩

/-- The document of a text. -/
def Document.parse (text : String) : Option Document := (Token.scan text).bind ofTokens?

end Runbook.Yaml
