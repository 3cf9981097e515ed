import Runbook.Condition
import Runbook.Graph
import Runbook.IdSource
import Runbook.Issue

/-!
# Checking documents and building graphs

Steps are visited in the order in which they are written: a step, then the steps inside it that its
kind uses. Each visited step gets a slot in the arena, and an id if it has none. The slot is taken
before the steps inside are visited, so a node comes before its parts; what the node does is filled
in afterwards, and the link to the next node once there is one.

What is wrong with a step is reported as an issue; a reference that is not well formed only draws a
warning, since it may stand in a branch that never runs.

* `Graph.layout` answers the layout of a document, or all errors if there are any,
* `Graph.build` answers its graph, or all errors,
* `Graph.validate` answers errors and warnings.
-/

namespace Runbook.Graph

/-- What is known after some steps have been visited, `κ` being what is kept of the steps. -/
structure Draft (κ : Type) where
  ids : IdSource
  /-- What is kept of the visited steps. -/
  seen : κ
  /-- The issues found so far, the latest first. -/
  found : List Issue

/-- Steps of building that carry a `Draft` along. -/
abbrev Building (κ : Type) := StateM (Draft κ)

section Checks

/- Checks make no use of what is kept of the steps. -/
variable {κ : Type}

/-- Records an issue of the node `id`. -/
def report (id : String) (issue : Issue) : Building κ Unit :=
  modify fun d => { d with found := { issue with nodeId := some id } :: d.found }

/-- The id of a step, supplied by the source if it was written without one. -/
def chooseId (written : Option String) : Building κ String := do
  match IdSource.authored? written with
  | some id => pure id
  | none =>
    let d ← get
    set { d with ids := d.ids.take.2 }
    pure d.ids.take.1

/-- An id that was used before. -/
def reportRepeated (id : String) (location : Location) : Building κ Unit :=
  report id (.error "duplicate_id" (location.key "id")
    ("node id `" ++ id ++ "` is used more than once") "node.id.unique")

/-- Warns of a token that looks like a reference and is none. -/
def checkReference (id : String) (location : Location) (token : String) : Building κ Unit :=
  if Reference.needsLookup token && (Reference.parse? token).isNone then
    report id { Issue.error "unrecognized_reference" location
      ("`" ++ token ++ "` does not match @alert:, @node:<id>$<field> or $<name>")
      "reference.grammar" with severity := .warning }
  else pure ()

/-- The trimmed text of a field, empty if the field is absent. -/
def trimmed (s : Option String) : String := (s.map Text.trim).getD ""

/-- The name of a loop's element, less the mark of an exported variable. -/
def itemName? (s : Option String) : Option String :=
  match s with
  | none => none
  | some s =>
    let name := (Text.trimChars s.toList).dropWhile (· == '$')
    if name.isEmpty then none else some (String.ofList name)

/-- An action has a urn, and its parameters are references where they look like some. -/
def checkAction (id : String) (location : Location) (urn : String)
    (params : Dict String String) : Building κ Unit := do
  if urn.isEmpty then
    report id (.error "missing_field" (location.key "urn")
      "execute node requires a non-empty urn" "node.execute.urn")
  params.entries.forM fun p => checkReference id ((location.key "params").key p.1) p.2

/-- A choice has a condition that `Comparison.parse` reads. -/
def checkCondition (id : String) (location : Location) (condition : String) :
    Building κ Unit := do
  let location := location.key "condition"
  if Text.isBlankText condition then
    report id (.error "missing_field" location "if node requires a condition" "node.if.condition")
  else
    match Comparison.parse condition with
    | .ok c => c.references.forM (checkReference id location)
    | .error e =>
      report id (.error "condition_parse" location e.message "node.if.condition.parse")

/-- A loop has elements, and they are a reference. -/
def checkElements (id : String) (location : Location) (elements : String) :
    Building κ Unit := do
  let location := location.key "iterateOn"
  if elements.isEmpty then
    report id (.error "missing_field" location "for node requires iterateOn" "node.for.iterate_on")
  else if Reference.needsLookup elements then checkReference id location elements
  else
    report id (.error "invalid_reference" location
      ("iterateOn `" ++ elements ++ "` must be a variable reference")
      "node.for.iterate_on.reference")

/-- A kind that is none of the three known ones. -/
def reportKind (id : String) (location : Location) (kind : String) : Building κ Unit :=
  report id (.error "unknown_type" (location.key "type")
    ("node type `" ++ kind ++ "` is not one of execute, if, for") "node.type.known")

end Checks

/-! ### Slots -/

/-- The slots taken so far and the positions of the ids that were claimed. -/
structure Slots where
  nodes : Arena := []
  byId : Dict String Nat := ∅

/-- An action that does nothing, in the place of a node that is not known yet. -/
def vacant : Entry.Kind := .action "" ∅ ∅

/-- Claims an id for the next slot. Every id may be used once. -/
def claim (id : String) (location : Location) : Building Slots Unit := do
  let d ← get
  -- A repeated id goes on standing for the slot of its first use.
  if d.seen.byId.contains id then reportRepeated id location
  else set { d with seen.byId := d.seen.byId.insert id d.seen.nodes.length }

/-- Takes a slot and answers its position. -/
def reserve (id : String) : Building Slots Nat := do
  let d ← get
  set { d with seen.nodes := d.seen.nodes ++ [Entry.mk id vacant none] }
  pure d.seen.nodes.length

/-- Changes the entry of a slot. -/
def patch (slot : Nat) (f : Entry → Entry) : Building Slots Unit :=
  modify fun d => { d with seen.nodes := d.seen.nodes.modify slot f }

/-- Fills in what a node does. -/
def patchKind (slot : Nat) (kind : Entry.Kind) : Building Slots Unit :=
  patch slot fun e => { e with kind := kind }

/-- Links a node to the one that runs next. -/
def patchNext (slot next : Nat) : Building Slots Unit :=
  patch slot fun e => { e with next := some next }

mutual

/-- Lays out a step and answers its position. -/
def place (location : Location) : Step → Building Slots Nat
  | ⟨id, kind, urn, params, exports, condition, onTrue, onFalse, iterateOn, itemAs, body⟩ => do
    let id ← chooseId id
    claim id location
    -- The slot is taken first, so a node precedes the nodes inside it.
    let slot ← reserve id
    let kind := kind.getD Step.executeKind
    if kind = Step.executeKind then
      let urn := trimmed urn
      checkAction id location urn params
      patchKind slot (.action urn params exports)
    else if kind = Step.ifKind then
      let condition := condition.getD ""
      checkCondition id location condition
      -- Each list inside is a chain of its own, whose head is the link into it.
      let yes ← placeAll (location.key "onTrue") 0 none none onTrue
      let no ← placeAll (location.key "onFalse") 0 none none onFalse
      patchKind slot (.choice condition yes no)
    else if kind = Step.forKind then
      let elements := trimmed iterateOn
      checkElements id location elements
      let body ← placeAll (location.key "body") 0 none none body
      patchKind slot (.loop elements (itemName? itemAs) body)
    -- The slot of a node of an unknown kind stays vacant.
    else reportKind id location kind
    pure slot

/-- Lays out steps that are written one after the other, the first at `position`, and answers the
position of the first. `head` and `previous` are those of the steps before them. -/
def placeAll (location : Location) (position : Nat) (head previous : Option Nat) :
    List Step → Building Slots (Option Nat)
  | [] => pure head
  | s :: rest => do
    let current ← place (location.index position) s
    match previous with
    | some previous =>
      patchNext previous current
      placeAll location (position + 1) head (some current) rest
    | none => placeAll location (position + 1) (some current) (some current) rest

end

/-! ### Documents -/

/-- The slots of a document, the position of its first step, and what was found on the way. -/
def lay (document : List Step) (ids : IdSource) : Option Nat × Draft Slots :=
  (placeAll .root 0 none none document).run ⟨ids, {}, []⟩

/-- All issues of a document in report order, ids being supplied by a fresh source. -/
def validate (document : List Step) : List Issue :=
  Issue.sort (lay document .fresh).2.found.reverse

/-- The layout of a document, or its errors in report order. The source of ids goes on from where
building left it, whether or not there are errors. -/
def layout (document : List Step) (ids : IdSource) : Except (List Issue) Layout × IdSource :=
  let (root, d) := lay document ids
  let issues := d.found.reverse
  if Issue.hasErrors issues then (.error (Issue.sort (issues.filter Issue.isError)), d.ids)
  else (.ok ⟨d.seen.nodes, root, d.seen.byId⟩, d.ids)

/-- The graph of a document, or its errors in report order. -/
def build (document : List Step) (ids : IdSource) : Except (List Issue) Graph × IdSource :=
  ((layout document ids).1.map Layout.graph, (layout document ids).2)

end Runbook.Graph
