import Runbook.Step
import Runbook.Yaml.Reader

/-!
# Documents from YAML

A step is a mapping whose keys are the names of `Step.Field`; other keys are skipped. The entries of
`params` and `exports` may be scalars of every kind but null, which stand for their texts.
-/

namespace Runbook.Step

open Runbook.Yaml (Document Reading)

def fieldNames : List String := Field.all.map Field.name

mutual

/-- Reads a step, with at most `depth` collections nested in each other. -/
def ofYaml (d : Document) (depth : Nat) (n : Yaml) : Reading Step :=
  match depth with
  | 0 => Reading.blank d {} n
  | inner + 1 => do
    (← Reading.record d fieldNames n).foldlM (fun s m =>
      match Field.ofName? m.1 with
      | some (.text f) => do return s.setText (← Reading.optionalText d m.2) f
      | some (.table f) => do return s.setTable (← tableOfYaml d inner m.2) f
      | some (.block f) => do return s.setBlock (← listOfYaml d inner m.2) f
      | none => pure s) {}

def tableOfYaml (d : Document) (depth : Nat) (n : Yaml) : Reading (Dict String String) :=
  match depth with
  | 0 => Reading.blank d ∅ n
  | _ + 1 => Reading.table d (Reading.atomText d) n

/-- Reads a list of steps, with at most `depth` collections nested in each other. -/
def listOfYaml (d : Document) (depth : Nat) (n : Yaml) : Reading (List Step) :=
  match depth with
  | 0 => Reading.blank d [] n
  | inner + 1 => do (← Reading.items d n).mapM (ofYaml d inner)

end

/-- The steps of a document. A text without a document has none. -/
def listOfDocument? (d : Document) : Option (List Step) :=
  match d.root with
  | none => some []
  | some n => d.read (listOfYaml d Yaml.maxDepth n)

end Runbook.Step
