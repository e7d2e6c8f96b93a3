import Flowline.Json.Basic

/-!
# Workflows

A workflow is a trigger and a tree of steps. Only a step of kind `subWorkflow` is a container: the
steps stored below any other step are kept but never visited, which is what `Step.children` says.
-/

namespace Flowline

/-- What starts a workflow. A tag that names no known kind is kept. -/
inductive TriggerKind where
  | webhook
  | schedule
  | manual
  | other (tag : String)
  deriving DecidableEq, Repr

namespace TriggerKind

/-- The tag of a kind. -/
def tag : TriggerKind → String
  | webhook => "webhook"
  | schedule => "schedule"
  | manual => "manual"
  | other t => t

/-- The kind of a tag. -/
def ofTag (t : String) : TriggerKind :=
  if t = "webhook" then webhook
  else if t = "schedule" then schedule
  else if t = "manual" then manual
  else other t

/-- A kind with a name of its own. -/
def isKnown : TriggerKind → Bool
  | other _ => false
  | _ => true

end TriggerKind

/-- What a step does. A tag that names no known kind is kept. -/
inductive StepKind where
  | action
  | filter
  | slackMessage
  | email
  | httpRequest
  | delay
  | subWorkflow
  | other (tag : String)
  deriving DecidableEq, Repr

namespace StepKind

/-- The tag of a kind. -/
def tag : StepKind → String
  | action => "action"
  | filter => "filter"
  | slackMessage => "slack_message"
  | email => "email"
  | httpRequest => "http_request"
  | delay => "delay"
  | subWorkflow => "sub_workflow"
  | other t => t

/-- The kind of a tag. -/
def ofTag (t : String) : StepKind :=
  if t = "action" then action
  else if t = "filter" then filter
  else if t = "slack_message" then slackMessage
  else if t = "email" then email
  else if t = "http_request" then httpRequest
  else if t = "delay" then delay
  else if t = "sub_workflow" then subWorkflow
  else other t

/-- A kind with a name of its own. -/
def isKnown : StepKind → Bool
  | other _ => false
  | _ => true

end StepKind

/-- The trigger of a workflow. -/
structure Trigger where
  kind : TriggerKind := .other ""
  config : Members := []
  deriving DecidableEq, Repr

/-- A step, with the steps stored below it. -/
structure Step where
  id : Option String := none
  kind : StepKind := .other ""
  name : Option String := none
  config : Members := []
  steps : List Step := []
  deriving Repr

namespace Step

/-- A step whose own steps are visited. -/
def isContainer (s : Step) : Bool := s.kind = .subWorkflow

/-- The steps below a step that are visited. -/
def children (s : Step) : List Step := if s.isContainer then s.steps else []

/-- The name of a step, or its position among its siblings, which is given counted from zero. -/
def displayName (s : Step) (index : Nat) : String :=
  match s.name with
  | some name => if name = "" then "Step " ++ toString (index + 1) else name
  | none => "Step " ++ toString (index + 1)

mutual

/-- How many steps are visited from a step on. -/
def count : Step → Nat
  | ⟨_, kind, _, _, steps⟩ => 1 + if kind = .subWorkflow then countAll steps else 0

/-- How many steps are visited from a list of steps on. -/
def countAll : List Step → Nat
  | [] => 0
  | s :: ss => count s + countAll ss

end

mutual

/-- The number of levels that visited steps take up, from a step on. -/
def depth : Step → Nat
  | ⟨_, kind, _, _, steps⟩ => 1 + if kind = .subWorkflow then depthAll steps else 0

/-- The number of levels that visited steps take up, from a list of steps on. -/
def depthAll : List Step → Nat
  | [] => 0
  | s :: ss => max (depth s) (depthAll ss)

end

theorem count_eq (s : Step) : s.count = 1 + countAll s.children := by
  rcases s with ⟨_, kind, _, _, steps⟩
  by_cases h : kind = .subWorkflow <;> simp [count, children, isContainer, h, countAll]

theorem depth_eq (s : Step) : s.depth = 1 + depthAll s.children := by
  rcases s with ⟨_, kind, _, _, steps⟩
  by_cases h : kind = .subWorkflow <;> simp [depth, children, isContainer, h, depthAll]

end Step

/-- A workflow. -/
structure Workflow where
  name : String := ""
  trigger : Option Trigger := none
  steps : List Step := []
  deriving Repr

namespace Workflow

/-- The name a workflow goes by, which is never empty. -/
def displayName (w : Workflow) : String := if w.name = "" then "Generated Workflow" else w.name

/-- How many steps are visited. -/
def stepCount (w : Workflow) : Nat := Step.countAll w.steps

/-- How many levels the visited steps take up. -/
def depth (w : Workflow) : Nat := Step.depthAll w.steps

/-- The workflow that stands in for a text without a usable one: a manual trigger and one action
that carries the prompt. -/
def fallback (prompt : String) : Workflow where
  name := "Custom Workflow"
  trigger := some { kind := .manual }
  steps := [{
    id := some "1"
    kind := .action
    name := some "Execute Action"
    config := [("action", .string prompt)] }]

end Workflow

end Flowline
