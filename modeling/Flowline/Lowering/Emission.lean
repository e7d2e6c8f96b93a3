import Flowline.Graph.Basic
import Flowline.Notice
import Flowline.Validation

/-!
# Emission

Every visited step becomes a node, a step before the steps below it, in one column of the canvas
with a row for each. The trigger comes first, if there is one. An emitted node has no identity
yet; what is noticed about it goes with it.
-/

namespace Flowline

/-- The column that nodes are put in. -/
def columnX : Int := 250

/-- The first row. -/
def startY : Int := 250

/-- The distance from one row to the next. -/
def rowHeight : Int := 150

/-- The version of every emitted node. -/
def nodeVersion : Nat := 1

/-- The node type of a kind of trigger. -/
def TriggerKind.nodeType : TriggerKind → String
  | webhook => "n8n-nodes-base.webhook"
  | schedule => "n8n-nodes-base.scheduleTrigger"
  | manual => "n8n-nodes-base.manualTrigger"
  | other _ => "n8n-nodes-base.manualTrigger"

/-- The node type of a kind of step. -/
def StepKind.nodeType : StepKind → String
  | slackMessage => "n8n-nodes-base.slack"
  | email => "n8n-nodes-base.emailSend"
  | httpRequest => "n8n-nodes-base.httpRequest"
  | filter => "n8n-nodes-base.filter"
  | delay => "n8n-nodes-base.wait"
  | subWorkflow => "n8n-nodes-base.executeWorkflow"
  | action => "n8n-nodes-base.noOp"
  | other _ => "n8n-nodes-base.noOp"

/-- A node before it has an identity: its contents, the path of its step, which the trigger has
not, and what is noticed about it. -/
structure Emitted where
  name : String
  type : String
  position : Position
  parameters : Members
  path : Option String
  notice : Option Notice := none
  deriving DecidableEq, Repr

namespace Emitted

/-- The node with an identity. -/
def node (e : Emitted) (id : Uuid) : Node :=
  ⟨id, e.name, e.type, nodeVersion, e.position, e.parameters⟩

end Emitted

/-- The node of a trigger at a height. -/
def Trigger.emit (t : Trigger) (y : Int) : Emitted where
  name := triggerName
  type := t.kind.nodeType
  position := ⟨columnX, y⟩
  parameters := t.config
  path := none
  notice := match t.kind with
    | .other tag => some (.manualTrigger tag)
    | _ => none

namespace Step

/-- The node of a single step at a height. -/
def emit (s : Step) (index : Nat) (path : Option String) (y : Int) : Emitted where
  name := s.displayName index
  type := s.kind.nodeType
  position := ⟨columnX, y⟩
  parameters := s.config
  path := path
  notice := match s.kind with
    | .other tag => some (.idleNode tag (s.displayName index))
    | _ => none

mutual

/-- The nodes from a step on, and the next free height. -/
def flatten (parent : Option String) (index : Nat) (y : Int) : Step → List Emitted × Int
  | ⟨id, kind, name, config, steps⟩ =>
    let path := childPath parent index
    let self := emit ⟨id, kind, name, config, steps⟩ index (some path) y
    if kind = .subWorkflow then
      let (below, next) := flattenAll (some path) 0 (y + rowHeight) steps
      (self :: below, next)
    else ([self], y + rowHeight)

/-- The nodes from a list of siblings on, and the next free height. -/
def flattenAll (parent : Option String) (index : Nat) (y : Int) : List Step → List Emitted × Int
  | [] => ([], y)
  | s :: ss =>
    let (here, y) := flatten parent index y s
    let (rest, y) := flattenAll parent (index + 1) y ss
    (here ++ rest, y)

end

end Step

/-- The nodes of a workflow in order. -/
def Workflow.emit (w : Workflow) : List Emitted :=
  match w.trigger with
  | some t => t.emit startY :: (Step.flattenAll none 0 (startY + rowHeight) w.steps).1
  | none => (Step.flattenAll none 0 startY w.steps).1

end Flowline
