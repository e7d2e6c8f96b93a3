import Flowline.Json.Shape
import Flowline.Workflow.Basic

/-!
# Workflows as JSON

Reading is lenient: every object is a workflow. A field that is missing, or holds a value of
another type, takes its default; text is taken from any value that counts as present; and an item
of `steps` that is no object keeps its slot as a blank step, so that its siblings keep their
positions. Writing leaves out what is absent.
-/

namespace Flowline

namespace Json

/-- A value that counts as present: null, false, zero and the empty string do not. -/
def isPresent : Json → Bool
  | .null => false
  | .bool b => b
  | .int n => n ≠ 0
  | .double d => !d.isZero
  | .string s => s ≠ ""
  | .array _ => true
  | .object _ => true

/-- The text of a value that is present: a string itself, and any other value as it is written. -/
def text? (j : Json) : Option String :=
  if j.isPresent then
    match j with
    | .string s => some s
    | j => some j.compact
  else none

end Json

namespace Members

/-- The text of the value of a key. -/
def text? (ms : Members) (key : String) : Option String := (ms.get? key).bind Json.text?

/-- The members of the object that is the value of a key. -/
def object (ms : Members) (key : String) : Members :=
  match ms.get? key with
  | some (.object members) => members
  | _ => []

end Members

namespace Trigger

/-- The trigger that an object describes. -/
def ofMembers (ms : Members) : Trigger where
  kind := .ofTag ((ms.text? "type").getD "")
  config := ms.object "config"

/-- The trigger that a value describes. A value that is present but no object is a blank one. -/
def ofJson? : Json → Option Trigger
  | .object ms => some (ofMembers ms)
  | j => if j.isPresent then some {} else none

/-- The value that a trigger is written as. -/
def toJson (t : Trigger) : Json :=
  .object [("type", .string t.kind.tag), ("config", .object t.config)]

/-- A trigger as a record. -/
def record : Json.Record Trigger where
  name := "struct Trigger"
  blank := {}
  fields := [
    .of "type" .defaulted .value fun t v => { t with kind := .ofTag (v.text?.getD "") },
    .of "config" .defaulted .value fun t v =>
      { t with config := match v with | .object ms => ms | _ => [] }]

end Trigger

namespace Step

mutual

/-- The step that a value describes. -/
def ofJson : Json → Step
  | .object ms =>
    { id := Members.text? ms "id"
      kind := .ofTag ((Members.text? ms "type").getD "")
      name := Members.text? ms "name"
      config := Members.object ms "config"
      steps := ofMembers ms }
  | _ => {}

/-- The steps in the field of an object. -/
def ofMembers : List (String × Json) → List Step
  | [] => []
  | (k, v) :: ms => if k = "steps" then ofSlot v else ofMembers ms

/-- The steps in the value of a field. -/
def ofSlot : Json → List Step
  | .array items => ofItems items
  | _ => []

/-- The steps of the items of an array, one each. -/
def ofItems : List Json → List Step
  | [] => []
  | j :: js => ofJson j :: ofItems js

end

/-- A member that is left out when it is absent. -/
def textMember (key : String) : Option String → Members
  | some t => [(key, .string t)]
  | none => []

mutual

/-- The value that a step is written as. -/
def toJson : Step → Json
  | ⟨id, kind, name, config, steps⟩ =>
    .object (textMember "id" id ++ [("type", .string kind.tag)] ++ textMember "name" name ++
      [("config", .object config)] ++
      match steps with
      | [] => []
      | s :: ss => [("steps", .array (toJson s :: toItems ss))])

/-- The values that steps are written as. -/
def toItems : List Step → List Json
  | [] => []
  | s :: ss => toJson s :: toItems ss

end

/-- A step as a record. -/
def record : Json.Record Step where
  name := "struct Step"
  blank := {}
  fields := [
    .of "id" .defaulted .value fun s v => { s with id := v.text? },
    .of "type" .defaulted .value fun s v => { s with kind := .ofTag (v.text?.getD "") },
    .of "name" .defaulted .value fun s v => { s with name := v.text? },
    .of "config" .defaulted .value fun s v =>
      { s with config := match v with | .object ms => ms | _ => [] },
    .of "steps" .defaulted .value fun s v => { s with steps := ofSlot v }]

/-- The text of a value in the configuration of a step. -/
def configText? (s : Step) (key : String) : Option String := s.config.text? key

end Step

namespace Workflow

/-- The workflow that an object describes. -/
def ofMembers (ms : Members) : Workflow where
  name := (ms.text? "name").getD ""
  trigger := (ms.get? "trigger").bind Trigger.ofJson?
  steps := Step.ofMembers ms

/-- The value that a workflow is written as. -/
def toJson (w : Workflow) : Json :=
  .object ([("name", .string w.name)] ++
    (match w.trigger with
      | some t => [("trigger", t.toJson)]
      | none => []) ++
    [("steps", .array (Step.toItems w.steps))])

/-- A workflow as a record. -/
def record : Json.Record Workflow where
  name := "struct Workflow"
  blank := {}
  fields := [
    .of "name" .defaulted .value fun w v => { w with name := v.text?.getD "" },
    .of "trigger" .defaulted .value fun w v => { w with trigger := Trigger.ofJson? v },
    .of "steps" .defaulted .value fun w v => { w with steps := Step.ofSlot v }]

end Workflow

end Flowline
