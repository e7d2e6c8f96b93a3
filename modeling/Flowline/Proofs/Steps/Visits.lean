import Flowline.Diagnostic
import Flowline.Workflow.Basic

/-!
# Visits

Every traversal goes through the same steps in the same order: a container directly in front of the
steps below it, and all of these in front of its next sibling. `visitsAll` lists that order once,
with the place of each step, so that what a traversal gives can be stated as a map over the list.
A place is made of positions, which are counted from zero from the top on; the path of a step can be
read off it.

Proofs about traversals go by `siblings_induction`, whose two hypotheses are for the steps below
the first of some siblings and for the other siblings.
-/

namespace Flowline

namespace Step

/-! ## Induction over siblings -/

mutual

private theorem children_induction {motive : List Step → Prop} (nil : motive [])
    (cons : ∀ s ss, motive s.children → motive ss → motive (s :: ss)) :
    ∀ s : Step, motive s.children
  | ⟨id, kind, name, config, steps⟩ => by
    by_cases h : kind = .subWorkflow
    · have below : motive steps := siblings_induction nil cons steps
      simpa [children, isContainer, h] using below
    · simpa [children, isContainer, h] using nil

/-- What holds of no steps, and of a step and its siblings as soon as it holds of the steps visited
below it and of the siblings, holds of any steps. -/
theorem siblings_induction {motive : List Step → Prop} (nil : motive [])
    (cons : ∀ s ss, motive s.children → motive ss → motive (s :: ss)) :
    ∀ ss : List Step, motive ss
  | [] => nil
  | s :: ss => cons s ss (children_induction nil cons s) (siblings_induction nil cons ss)

end

theorem displayName_ne_empty (s : Step) (index : Nat) : s.displayName index ≠ "" := by
  have hnumbered (n : String) : "Step " ++ n ≠ "" := by
    intro hempty
    have hlength := congrArg (fun text => text.toList.length) hempty
    simp at hlength
  unfold displayName
  split
  · split
    · exact hnumbered _
    · assumption
  · exact hnumbered _

theorem countAll_cons (s : Step) (ss : List Step) :
    countAll (s :: ss) = 1 + countAll s.children + countAll ss := by
  rw [countAll, count_eq]

end Step

/-! ## Places -/

/-- A step that is visited, with its position among its siblings and the positions of the
containers around it, the outermost first. -/
structure Visit where
  step : Step
  index : Nat
  above : List Nat := []
  deriving Repr

/-- The path that positions lead to from a parent on, and the parent itself for no positions. -/
def pathBelow (parent : Option String) (positions : List Nat) : Option String :=
  positions.foldl (fun path index => some (childPath path index)) parent

@[simp] theorem pathBelow_nil (parent : Option String) : pathBelow parent [] = parent := rfl

@[simp] theorem pathBelow_append_singleton (parent : Option String) (positions : List Nat)
    (index : Nat) :
    pathBelow parent (positions ++ [index]) =
      some (childPath (pathBelow parent positions) index) := by
  rw [pathBelow, List.foldl_append]
  rfl

namespace Visit

/-- The name of a visited step. -/
def name (v : Visit) : String := v.step.displayName v.index

/-- The path of a visited step, where the outermost siblings stand below a parent. -/
def path (v : Visit) (parent : Option String := none) : String :=
  childPath (pathBelow parent v.above) v.index

end Visit

/-! ## The order of visits -/

namespace Step

mutual

/-- The visits from a step on. -/
def visits (above : List Nat) (index : Nat) : Step → List Visit
  | ⟨id, kind, name, config, steps⟩ =>
    ⟨⟨id, kind, name, config, steps⟩, index, above⟩ ::
      if kind = .subWorkflow then visitsAll (above ++ [index]) 0 steps else []

/-- The visits from a list of siblings on. -/
def visitsAll (above : List Nat) (index : Nat) : List Step → List Visit
  | [] => []
  | s :: ss => visits above index s ++ visitsAll above (index + 1) ss

end

@[simp] theorem visitsAll_nil (above : List Nat) (index : Nat) :
    visitsAll above index [] = [] := rfl

theorem visitsAll_cons (above : List Nat) (index : Nat) (s : Step) (ss : List Step) :
    visitsAll above index (s :: ss) =
      ⟨s, index, above⟩ ::
        (visitsAll (above ++ [index]) 0 s.children ++ visitsAll above (index + 1) ss) := by
  rcases s with ⟨id, kind, name, config, steps⟩
  by_cases h : kind = .subWorkflow
  · simp [visitsAll, visits, children, isContainer, h]
  · simp [visitsAll, visits, children, isContainer, h]

theorem length_visitsAll (above : List Nat) (index : Nat) (ss : List Step) :
    (visitsAll above index ss).length = countAll ss := by
  induction ss using siblings_induction generalizing above index with
  | nil => rfl
  | cons s ss below rest =>
    rw [visitsAll_cons, countAll_cons, List.length_cons, List.length_append, below, rest]
    omega

/-- The steps that are visited, in order, without their places. -/
def reached (ss : List Step) : List Step := (visitsAll [] 0 ss).map Visit.step

theorem map_step_visitsAll (above : List Nat) (index : Nat) (ss : List Step) :
    (visitsAll above index ss).map Visit.step = reached ss := by
  -- Both places vary in the induction: below the first step, neither is the place of the siblings.
  suffices h : ∀ above' index', (visitsAll above index ss).map Visit.step =
      (visitsAll above' index' ss).map Visit.step from h [] 0
  induction ss using siblings_induction generalizing above index with
  | nil => simp
  | cons s ss below rest =>
    intro above' index'
    simp only [visitsAll_cons, List.map_cons, List.map_append]
    rw [below (above ++ [index]) 0 (above' ++ [index']) 0,
      rest above (index + 1) above' (index' + 1)]

theorem reached_cons (s : Step) (ss : List Step) :
    reached (s :: ss) = s :: (reached s.children ++ reached ss) := by
  rw [reached, visitsAll_cons, List.map_cons, List.map_append, map_step_visitsAll,
    map_step_visitsAll]

/-! ## Changes of steps -/

section Map

variable {change : Step → Step} (hchange : ∀ s, (change s).children = s.children.map change)

include hchange

/-- A change of steps that goes on below them changes neither their number nor their levels, and the
same places are visited. -/
theorem countAll_map (ss : List Step) : countAll (ss.map change) = countAll ss := by
  induction ss using siblings_induction with
  | nil => rfl
  | cons s ss below rest =>
    rw [List.map_cons, countAll_cons, countAll_cons, hchange, below, rest]

theorem depthAll_map (ss : List Step) : depthAll (ss.map change) = depthAll ss := by
  induction ss using siblings_induction with
  | nil => rfl
  | cons s ss below rest =>
    rw [List.map_cons, depthAll, depthAll, depth_eq, depth_eq, hchange, below, rest]

theorem visitsAll_map (above : List Nat) (index : Nat) (ss : List Step) :
    visitsAll above index (ss.map change) =
      (visitsAll above index ss).map fun v => { v with step := change v.step } := by
  induction ss using siblings_induction generalizing above index with
  | nil => rfl
  | cons s ss below rest =>
    rw [List.map_cons, visitsAll_cons, visitsAll_cons, hchange, below, rest, List.map_cons,
      List.map_append]

end Map

end Step

namespace Workflow

/-- The visits of a workflow in order. -/
def visits (w : Workflow) : List Visit := Step.visitsAll [] 0 w.steps

theorem length_visits (w : Workflow) : w.visits.length = w.stepCount :=
  Step.length_visitsAll [] 0 w.steps

/-- The containers that are visited. -/
def containers (w : Workflow) : List Step := (Step.reached w.steps).filter Step.isContainer

end Workflow

end Flowline
