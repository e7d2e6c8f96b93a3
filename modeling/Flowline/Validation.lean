import Flowline.Config
import Flowline.Issue

/-!
# Validation

What is wrong with a workflow before it is lowered: steps nested too deep, one issue for each
branch; too many steps; and names used twice, if the policy rejects those. Behind them stand the
questionable places, which are warnings. Every traversal goes through the visited steps in order,
a step before the steps below it.
-/

namespace Flowline

/-- The name of the node of the trigger. -/
def triggerName : String := "Trigger"

namespace Step

mutual

/-- The first steps on each branch from a step on that lie deeper than the limit. -/
def tooDeep (limit level : Nat) (parent : Option String) (index : Nat) : Step → List Issue
  | ⟨_, kind, _, _, steps⟩ =>
    if limit < level then [.tooDeep level limit (childPath parent index)]
    else if kind = .subWorkflow then
      tooDeepAll limit (level + 1) (some (childPath parent index)) 0 steps
    else []

/-- The first steps on each branch from a list of siblings on that lie deeper than the limit. -/
def tooDeepAll (limit level : Nat) (parent : Option String) (index : Nat) : List Step → List Issue
  | [] => []
  | s :: ss =>
    tooDeep limit level parent index s ++ tooDeepAll limit level parent (index + 1) ss

end

/-- The names seen so far, each with the path of its first use. -/
abbrev Seen := List (String × Option String)

mutual

/-- The steps from a step on whose names were seen before, and the names seen then. -/
def duplicates (parent : Option String) (index : Nat) (seen : Seen) : Step → List Issue × Seen
  | ⟨id, kind, name, config, steps⟩ =>
    let path := childPath parent index
    let display := displayName ⟨id, kind, name, config, steps⟩ index
    let (found, seen) := match seen.lookup display with
      | some first => ([Issue.duplicateName display first path], seen)
      | none => ([], (display, some path) :: seen)
    let (below, seen) :=
      if kind = .subWorkflow then duplicatesAll (some path) 0 seen steps else ([], seen)
    (found ++ below, seen)

/-- The steps from a list of siblings on whose names were seen before, and the names seen then. -/
def duplicatesAll (parent : Option String) (index : Nat) (seen : Seen) :
    List Step → List Issue × Seen
  | [] => ([], seen)
  | s :: ss =>
    let (here, seen) := duplicates parent index seen s
    let (rest, seen) := duplicatesAll parent (index + 1) seen ss
    (here ++ rest, seen)

end

/-- What is questionable about a single step. -/
def questions (s : Step) (index : Nat) (path : String) : List Issue :=
  (match s.kind with
    | .other tag => [.unknownStep tag (s.displayName index) path]
    | _ => []) ++
  (if s.isContainer ∨ s.steps = [] then []
    else [.ignoredSteps (s.displayName index) s.kind s.steps.length path])

mutual

/-- The questionable places from a step on. -/
def lint (parent : Option String) (index : Nat) : Step → List Issue
  | ⟨id, kind, name, config, steps⟩ =>
    questions ⟨id, kind, name, config, steps⟩ index (childPath parent index) ++
      if kind = .subWorkflow then lintAll (some (childPath parent index)) 0 steps else []

/-- The questionable places from a list of siblings on. -/
def lintAll (parent : Option String) (index : Nat) : List Step → List Issue
  | [] => []
  | s :: ss => lint parent index s ++ lintAll parent (index + 1) ss

end

end Step

namespace Workflow

/-- The branches that are nested too deep. -/
def tooDeep (w : Workflow) (limits : Limits) : List Issue :=
  Step.tooDeepAll limits.maxDepth 1 none 0 w.steps

/-- Whether there are too many steps. -/
def tooManySteps (w : Workflow) (limits : Limits) : List Issue :=
  if limits.maxSteps < w.stepCount then [.tooManySteps w.stepCount limits.maxSteps] else []

/-- The steps whose names are used before, by the trigger or by another step. -/
def duplicateNames (w : Workflow) : List Issue :=
  (Step.duplicatesAll none 0 (if w.trigger.isSome then [(triggerName, none)] else []) w.steps).1

/-- The questionable places of a workflow. -/
def lint (w : Workflow) : List Issue :=
  (match w.trigger with
    | some ⟨.other tag, _⟩ => [.unknownTrigger tag]
    | _ => []) ++ Step.lintAll none 0 w.steps

/-- Everything that is wrong or questionable about a workflow. -/
def validate (w : Workflow) (limits : Limits) (policy : CollisionPolicy) : List Issue :=
  w.tooDeep limits ++ w.tooManySteps limits ++
    (if policy = .reject then w.duplicateNames else []) ++ w.lint

end Workflow

namespace Issue

/-- Whether anything in a list is fatal. -/
def anyFatal (is : List Issue) : Bool := is.any fun i => !i.isWarning

/-- The issues that are fatal. -/
def fatal (is : List Issue) : List Issue := is.filter fun i => !i.isWarning

end Issue

end Flowline
