import Flowline.Json.Shape

/-!
# Configuration

The settings of the program: what to do about names that are used twice, how long a run pauses,
and how large a workflow may be. A configuration text may leave out any section and any field,
which then keep their defaults, and members that mean nothing are passed over.
-/

namespace Flowline

/-- What to do when two nodes have one name. -/
inductive CollisionPolicy where
  /-- It is an error. -/
  | reject
  /-- The later connection replaces the earlier one. -/
  | overwrite
  deriving DecidableEq, Repr

namespace CollisionPolicy

/-- The name of a policy. -/
def name : CollisionPolicy → String
  | reject => "reject"
  | overwrite => "overwrite"

/-- The policies by name. -/
def named : List (String × CollisionPolicy) := [reject, overwrite].map fun p => (p.name, p)

end CollisionPolicy

/-- How workflows are lowered. -/
structure LoweringOptions where
  onNameCollision : CollisionPolicy := .reject
  deriving DecidableEq, Repr

namespace LoweringOptions

/-- Lowering options as a record. -/
def record : Json.Record LoweringOptions where
  name := "struct LowerOptions"
  blank := {}
  fields := [
    .of "on_name_collision" .defaulted (.variant CollisionPolicy.named) fun o x =>
      { o with onNameCollision := x }]

/-- The value that lowering options are written as. -/
def toJson (o : LoweringOptions) : Json :=
  .object [("on_name_collision", .string o.onNameCollision.name)]

end LoweringOptions

/-- How long a run pauses, in milliseconds: before the trigger line, behind the last line of each
step, and before the final line. -/
structure Delays where
  trigger : Nat := 500
  step : Nat := 600
  finish : Nat := 500
  deriving DecidableEq, Repr

namespace Delays

/-- No pauses at all. -/
def none : Delays := ⟨0, 0, 0⟩

/-- Delays as a record. -/
def record : Json.Record Delays where
  name := "struct InterpreterConfig"
  blank := {}
  fields := [
    .of "trigger_delay_ms" .defaulted (.count "u64") fun d x => { d with trigger := x },
    .of "step_delay_ms" .defaulted (.count "u64") fun d x => { d with step := x },
    .of "finish_delay_ms" .defaulted (.count "u64") fun d x => { d with finish := x }]

/-- The value that delays are written as. -/
def toJson (d : Delays) : Json :=
  .object [("trigger_delay_ms", .int d.trigger), ("step_delay_ms", .int d.step),
    ("finish_delay_ms", .int d.finish)]

end Delays

/-- How large a workflow may be. -/
structure Limits where
  maxDepth : Nat := 16
  maxSteps : Nat := 500
  deriving DecidableEq, Repr

namespace Limits

/-- Limits as a record. -/
def record : Json.Record Limits where
  name := "struct Limits"
  blank := {}
  fields := [
    .of "max_depth" .defaulted (.count "usize") fun l x => { l with maxDepth := x },
    .of "max_steps" .defaulted (.count "usize") fun l x => { l with maxSteps := x }]

/-- The value that limits are written as. -/
def toJson (l : Limits) : Json :=
  .object [("max_depth", .int l.maxDepth), ("max_steps", .int l.maxSteps)]

end Limits

/-- A whole configuration. -/
structure Config where
  lowering : LoweringOptions := {}
  delays : Delays := {}
  limits : Limits := {}
  deriving DecidableEq, Repr

namespace Config

/-- A configuration as a record. -/
def record : Json.Record Config where
  name := "struct EngineConfig"
  blank := {}
  fields := [
    .of "lower" .defaulted LoweringOptions.record.decode fun c x => { c with lowering := x },
    .of "interpreter" .defaulted Delays.record.decode fun c x => { c with delays := x },
    .of "limits" .defaulted Limits.record.decode fun c x => { c with limits := x }]

/-- The value that a configuration is written as. -/
def toJson (c : Config) : Json :=
  .object [("lower", c.lowering.toJson), ("interpreter", c.delays.toJson),
    ("limits", c.limits.toJson)]

/-- Reads a configuration text, or says why and where it cannot be read. -/
def ofText (text : String) : Except Json.TextError Config :=
  match record.decode.run text with
  | .ok c => .ok c
  | .error f => .error (f.locate text.toList)

end Config

end Flowline
