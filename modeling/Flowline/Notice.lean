import Flowline.Issue

/-!
# Notices

What the program goes on after but makes known: each notice is an event with a message and named
fields, in the order in which the events happen.
-/

namespace Flowline

/-- An event that is made known. -/
inductive Notice where
  /-- A generated text held no workflow. -/
  | fallback (issue : Issue)
  /-- A trigger of unknown kind became a manual one. -/
  | manualTrigger (tag : String)
  /-- A step of unknown kind became a node that does nothing. -/
  | idleNode (tag name : String)
  /-- A connection was replaced by a later one of the same name. -/
  | droppedConnection (source target : String)
  /-- A step of unknown kind was run as a plain action. -/
  | plainAction (tag name : String)
  deriving DecidableEq, Repr

namespace Notice

/-- The words of a notice. -/
def message : Notice → String
  | fallback i => "falling back to default workflow: " ++ i.message
  | manualTrigger _ => "unknown trigger type, lowering as manual trigger"
  | idleNode .. => "unknown step type, lowering as no-op node"
  | droppedConnection .. => "duplicate node name, earlier connection overwritten"
  | plainAction .. => "unknown step type, simulating generic action"

/-- The named fields of a notice. -/
def fields : Notice → List (String × String)
  | fallback i => [("code", i.code)]
  | manualTrigger tag => [("trigger_type", tag)]
  | idleNode tag name => [("step_type", tag), ("step", name)]
  | droppedConnection source target => [("source", source), ("dropped_target", target)]
  | plainAction tag name => [("step_type", tag), ("step", name)]

end Notice

end Flowline
