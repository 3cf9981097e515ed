import Runbook.Command.Check
import Runbook.Proofs.Graph.Mirror
import Runbook.Proofs.Graph.Verdict

namespace Runbook

/-!
# Runbook graphs — steps that are counted and not built

A check counts the steps of a document at all depths, and building visits those that lie in lists
that the kinds of the steps around them make use of.  The rest are strays: nothing is made of them,
and nothing is said about them.

* `Step.unused` — the steps in the lists that the kind of a step makes no use of;
* `Step.strays` — the strays of a document;
* `Step.listing_perm` — a document consists of its visited steps and its strays;
* `Tallied`, `tallied_of_validate` — how many nodes a graph has, and how many steps were counted.
-/

open Step (visit visitAll executeKind ifKind forKind)

namespace Step

/-! ### Strays -/

/-- The steps in those lists of a step that its kind makes no use of. -/
def unused (s : Step) : List Step :=
  if s.effectiveKind = ifKind then s.body
  else if s.effectiveKind = forKind then s.onTrue ++ s.onFalse
  else s.onTrue ++ s.onFalse ++ s.body

/-- The steps of a listing that are inside unused lists of the visited steps. -/
def straysOf (visited : List (Location × Step)) : List Step :=
  visited.flatMap fun p => listing p.2.unused

/-- The steps of a document that are not visited. -/
def strays (document : List Step) : List Step := straysOf (visitAll .root 0 document)

/-- The strays of the first step and those of the rest. -/
theorem straysOf_cons (p : Location × Step) (rest : List (Location × Step)) :
    straysOf (p :: rest) = listing p.2.unused ++ straysOf rest := rfl

/-- The strays of two stretches of visited steps. -/
theorem straysOf_append (l l' : List (Location × Step)) :
    straysOf (l ++ l') = straysOf l ++ straysOf l' :=
  List.flatMap_append

/-- The steps of two blocks, at all depths. -/
@[simp]
theorem listing_append (steps steps' : List Step) :
    listing (steps ++ steps') = listing steps ++ listing steps' := by
  induction steps with
  | nil => rw [List.nil_append, listing, List.nil_append]
  | cons s rest ih => rw [List.cons_append, listing, listing, ih, List.append_assoc]

/-- A block that is not empty lists a step. -/
theorem listing_eq_nil_iff {steps : List Step} : listing steps = [] ↔ steps = [] := by
  cases steps with
  | nil => simp [listing]
  | cons s rest =>
    -- A step is listed itself.
    cases s
    simp [listing, subtree]

/-- There are strays just if a visited step has steps in a list that its kind makes no use of. -/
theorem strays_eq_nil_iff {document : List Step} :
    strays document = [] ↔ ∀ p ∈ visitAll .root 0 document, p.2.unused = [] := by
  rw [strays, straysOf, List.flatMap_eq_nil_iff]
  exact forall₂_congr fun _ _ => listing_eq_nil_iff

/-! ### Visited steps and strays -/

/-- Two lists that are parted in two are parted together. -/
theorem perm_append_halves {α : Type} {l l' a a' b b' : List α} (h : l.Perm (a ++ b))
    (h' : l'.Perm (a' ++ b')) : (l ++ l').Perm ((a ++ a') ++ (b ++ b')) := by
  refine (h.append h').trans ?_
  rw [List.append_assoc, List.append_assoc]
  exact (List.perm_append_left_iff a).2 (List.perm_append_comm_assoc b a' b')

mutual

/-- `listing_perm` for a single step. -/
theorem subtree_perm (place : Location) : ∀ s : Step,
    s.subtree.Perm ((visit place s).map Prod.snd ++ straysOf (visit place s))
  | ⟨id, kind, urn, params, exports, condition, onTrue, onFalse, iterateOn, itemAs, body⟩ => by
    have hyes := listing_perm (place.key "onTrue") 0 onTrue
    have hno := listing_perm (place.key "onFalse") 0 onFalse
    have hbody := listing_perm (place.key "body") 0 body
    -- The steps of an unused list are strays all together.
    have hall : ∀ steps : List Step, (listing steps).Perm ([] ++ listing steps) := fun steps =>
      .refl _
    rw [visit, subtree, straysOf_cons, List.map_cons, List.cons_append, unused, effectiveKind]
    refine List.Perm.cons _ ?_
    dsimp only
    by_cases hif : kind.getD executeKind = ifKind
    · -- The branches are visited, and the body is left over.
      rw [if_pos hif, if_pos hif, straysOf_append, List.map_append]
      have hparts := perm_append_halves (perm_append_halves hyes hno) (hall body)
      rw [List.append_nil] at hparts
      exact hparts.trans ((List.perm_append_left_iff _).2 List.perm_append_comm)
    rw [if_neg hif, if_neg hif]
    by_cases hfor : kind.getD executeKind = forKind
    · -- The body is visited, and the branches are left over.
      rw [if_pos hfor, if_pos hfor, listing_append]
      exact perm_append_halves (perm_append_halves (hall onTrue) (hall onFalse)) hbody
    · -- Nothing inside the step is visited.
      rw [if_neg hfor, if_neg hfor, listing_append, listing_append]
      simp [straysOf]

/-- **Visited steps and strays.** Every step of a document is one or the other, and none is both. -/
theorem listing_perm (place : Location) : ∀ (position : Nat) (steps : List Step),
    (listing steps).Perm ((visitAll place position steps).map Prod.snd ++
      straysOf (visitAll place position steps))
  | position, [] => by
    rw [listing, visitAll]
    exact .nil
  | position, s :: rest => by
    have hstep := subtree_perm (place.index position) s
    have hrest := listing_perm place (position + 1) rest
    rw [listing, visitAll, straysOf_append, List.map_append]
    exact perm_append_halves hstep hrest

end

/-- `Step.count` counts visited steps and strays. -/
theorem count_eq (document : List Step) :
    count document = (visitAll .root 0 document).length + (strays document).length := by
  have hlength := (listing_perm .root 0 document).length_eq
  rwa [List.length_append, List.length_map] at hlength

end Step

/-! ### Counted steps and nodes -/

namespace Graph

/-- How many steps of a document were counted, and how many nodes its graph has. -/
structure Tallied (document : List Step) (g : Graph) : Prop where
  /-- The graph consists of the nodes of the visited steps. -/
  built : BuiltAll document g.nodes
  visited : g.size = (visitAll .root 0 document).length
  arena : g.arena.length = g.size
  /-- The steps of the document are the visited ones and the strays. -/
  steps : (Step.listing document).Perm
    ((visitAll .root 0 document).map Prod.snd ++ Step.strays document)
  /-- The steps that were counted and have no node are the strays. -/
  counted : (Verdict.ofDocument document).steps = g.size + (Step.strays document).length
  /-- Nothing is missing just if no visited step has steps in a list that its kind makes no use
      of. -/
  whole : g.size = (Verdict.ofDocument document).steps ↔
    ∀ p ∈ visitAll .root 0 document, p.2.unused = []

/-- Nodes are built from the visited steps, so the graph lacks the strays. -/
theorem tallied_of_builtAll {document : List Step} {g : Graph} (h : BuiltAll document g.nodes) :
    Tallied document g := by
  have hvisited : g.size = (visitAll .root 0 document).length := (length_visitAll h).symm
  have hcounted : (Verdict.ofDocument document).steps =
      g.size + (Step.strays document).length := by
    rw [hvisited]
    exact Step.count_eq document
  constructor
  case built => exact h
  case visited => exact hvisited
  case arena => exact Node.length_entriesAll 0 g.nodes
  case steps => exact Step.listing_perm .root 0 document
  case counted => exact hcounted
  case whole =>
    rw [hcounted, ← Step.strays_eq_nil_iff, ← List.length_eq_zero_iff]
    omega

/-- A document in which a check finds nothing wrong can be built. -/
theorem build_of_validate {document : List Step} (h : validate document = []) :
    ∃ g, (build document .fresh).1 = .ok g := by
  have hfound : Issue.hasErrors (draft document .fresh).2.found.reverse = false := by
    rw [← Issue.hasErrors_sort, ← validate_eq, h]
    rfl
  rw [build_fst, hfound]
  exact ⟨_, rfl⟩

/-- **Counted and built.** A document in which a check finds nothing has a graph, with a node for
    each step that the check has counted but the strays. -/
theorem tallied_of_validate {document : List Step} (h : validate document = []) :
    (∃ g, (build document .fresh).1 = .ok g) ∧
      ∀ (ids rest : IdSource) (g : Graph), build document ids = (.ok g, rest) →
        Tallied document g :=
  ⟨build_of_validate h, fun _ _ _ hbuild => tallied_of_builtAll (build_ok hbuild).1⟩

/-- Nothing is wrong with this document, and all of its steps have nodes. -/
theorem tallied_nestedSteps : validate nestedSteps = [] ∧ Tallied nestedSteps nestedGraph ∧
    nestedGraph.size = (Verdict.ofDocument nestedSteps).steps := by
  have hvalid : validate nestedSteps = [] := by decide +kernel
  have htallied := (tallied_of_validate hvalid).2 _ _ _ build_nestedSteps
  exact ⟨hvalid, htallied, by decide +kernel⟩

/-- An action with a step in a branch, which actions make no use of. -/
def branchedAction : List Step := [{ Step.execute "u" with onTrue := [.execute "v"] }]

/-- Two steps are counted, nothing is found, and one node is made. -/
theorem not_whole_branchedAction : (Verdict.ofDocument branchedAction).issues = [] ∧
    ∃ (g : Graph) (rest : IdSource), build branchedAction .fresh = (.ok g, rest) ∧
      g.size = 1 ∧ (Verdict.ofDocument branchedAction).steps = 2 := by
  have hissues : (Verdict.ofDocument branchedAction).issues = [] := by decide +kernel
  exact ⟨hissues, ⟨[.action "1" "u" ∅ ∅]⟩, ⟨2⟩, rfl, rfl, rfl⟩

end Graph

end Runbook
