import Runbook.Dict

/-!
# Steps of a runbook document

A document is a list of steps as their author wrote them. Which fields of a step matter depends on
its kind: `execute` calls an action, `if` chooses between two lists of steps and `for` repeats a
list of steps. Nothing is checked here; a document may hold steps of unknown kind and steps that
lack what their kind needs.

* `Step.Field` names the fields as they are written in a document,
* `Step.listing` lists the steps of a document with all the steps inside them.
-/

namespace Runbook

/-- One step, with the steps inside it. -/
structure Step where
  id : Option String := none
  /-- The declared kind. -/
  kind : Option String := none
  urn : Option String := none
  /-- Parameters by name: literal texts or references. -/
  params : Dict String String := ∅
  /-- Exported names, each with the output it is given. -/
  exports : Dict String String := ∅
  condition : Option String := none
  onTrue : List Step := []
  onFalse : List Step := []
  iterateOn : Option String := none
  /-- The name under which a loop exports its current element. -/
  itemAs : Option String := none
  body : List Step := []
  deriving Inhabited

namespace Step

def executeKind : String := "execute"

def ifKind : String := "if"

def forKind : String := "for"

/-- The declared kind; a step without one executes an action. -/
def effectiveKind (s : Step) : String := s.kind.getD executeKind

/-- A step that calls the action `urn`. -/
def execute (urn : String) : Step := { kind := some executeKind, urn := some urn }

/-- A step that chooses by a condition. -/
def choose (condition : String) : Step := { kind := some ifKind, condition := some condition }

/-- A step that repeats its body for every element. -/
def forEach (elements : String) : Step := { kind := some forKind, iterateOn := some elements }

/-! ### Fields -/

/-- Fields that hold an optional text. -/
inductive TextField where
  | id
  | kind
  | urn
  | condition
  | iterateOn
  | itemAs
  deriving Repr, DecidableEq

/-- Fields that hold texts by name. -/
inductive TableField where
  | params
  | exports
  deriving Repr, DecidableEq

/-- Fields that hold steps. -/
inductive BlockField where
  | onTrue
  | onFalse
  | body
  deriving Repr, DecidableEq

inductive Field where
  | text (field : TextField)
  | table (field : TableField)
  | block (field : BlockField)
  deriving Repr, DecidableEq

/-- The name of a field in a document. -/
def Field.name : Field → String
  | text .id => "id"
  | text .kind => "type"
  | text .urn => "urn"
  | text .condition => "condition"
  | text .iterateOn => "iterateOn"
  | text .itemAs => "itemAs"
  | table .params => "params"
  | table .exports => "exports"
  | block .onTrue => "onTrue"
  | block .onFalse => "onFalse"
  | block .body => "body"

/-- All fields in the order in which they are written. -/
def Field.all : List Field :=
  [text .id, text .kind, text .urn, table .params, table .exports, text .condition, block .onTrue,
    block .onFalse, text .iterateOn, text .itemAs, block .body]

def Field.ofName? (name : String) : Option Field := Field.all.find? (fun f => f.name == name)

theorem Field.mem_all (f : Field) : f ∈ Field.all := by
  obtain f | f | f := f <;> cases f <;> decide

theorem Field.ofName?_name (f : Field) : Field.ofName? f.name = some f := by
  obtain f | f | f := f <;> cases f <;> decide

/-- No two fields share a name. -/
theorem Field.name_inj {f g : Field} : f.name = g.name ↔ f = g := by
  refine ⟨fun h => ?_, congrArg Field.name⟩
  have hfind : Field.ofName? f.name = some g := h ▸ g.ofName?_name
  exact Option.some.inj (f.ofName?_name.symm.trans hfind)

def setText (s : Step) (value : Option String) : TextField → Step
  | .id => { s with id := value }
  | .kind => { s with kind := value }
  | .urn => { s with urn := value }
  | .condition => { s with condition := value }
  | .iterateOn => { s with iterateOn := value }
  | .itemAs => { s with itemAs := value }

def setTable (s : Step) (value : Dict String String) : TableField → Step
  | .params => { s with params := value }
  | .exports => { s with exports := value }

def setBlock (s : Step) (value : List Step) : BlockField → Step
  | .onTrue => { s with onTrue := value }
  | .onFalse => { s with onFalse := value }
  | .body => { s with body := value }

def getText (s : Step) : TextField → Option String
  | .id => s.id
  | .kind => s.kind
  | .urn => s.urn
  | .condition => s.condition
  | .iterateOn => s.iterateOn
  | .itemAs => s.itemAs

def getTable (s : Step) : TableField → Dict String String
  | .params => s.params
  | .exports => s.exports

def getBlock (s : Step) : BlockField → List Step
  | .onTrue => s.onTrue
  | .onFalse => s.onFalse
  | .body => s.body

/-! ### All steps of a document -/

mutual

/-- A step and all steps inside it, each before its parts and the parts in the order of the
fields. -/
def subtree : Step → List Step
  | ⟨id, kind, urn, params, exports, condition, onTrue, onFalse, iterateOn, itemAs, body⟩ =>
    ⟨id, kind, urn, params, exports, condition, onTrue, onFalse, iterateOn, itemAs, body⟩ ::
      (listing onTrue ++ listing onFalse ++ listing body)

def listing : List Step → List Step
  | [] => []
  | s :: rest => s.subtree ++ listing rest

end

/-- How many steps a document has at all depths. -/
def count (steps : List Step) : Nat := (listing steps).length

end Step

end Runbook
