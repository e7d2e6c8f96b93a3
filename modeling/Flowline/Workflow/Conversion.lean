import Flowline.Issue
import Flowline.Json.Changes
import Flowline.Workflow.OfJson

/-!
# Workflows converted member by member

Beside the readers that look fields up, there are those that go through the members of a value and
let each of them change the field that it names. A key that is there twice is refused, on any level,
and what comes of a whole workflow then is an issue.
-/

namespace Flowline

namespace Trigger

/-- The trigger with a field as a member says. -/
def withField (t : Trigger) (key : String) (v : Json) : Trigger :=
  if key = "type" then { t with kind := .ofTag (v.text?.getD "") }
  else if key = "config" then { t with config := v.members }
  else t

/-- The trigger that a value describes, made member by member. -/
def convert : Json → Except Json.Misfit (Option Trigger)
  | .object ms =>
    (Json.makeChanges [] {}
      ((Members.only ms record.keys).map fun m => (m.1, .ok fun t => t.withField m.1 m.2))).map some
  | j => .ok (if j.isPresent then some {} else none)

end Trigger

namespace Step

/-- The step with a field as a member says. -/
def withField (s : Step) (key : String) (v : Json) : Step :=
  if key = "id" then { s with id := v.text? }
  else if key = "type" then { s with kind := .ofTag (v.text?.getD "") }
  else if key = "name" then { s with name := v.text? }
  else if key = "config" then { s with config := v.members }
  else if key = "steps" then { s with steps := ofSlot v }
  else s

mutual

/-- The step that a value describes, made member by member. -/
def convert : Json → Except Json.Misfit Step
  | .object ms => Json.makeChanges [] {} (changes ms)
  | _ => .ok {}

/-- What members change about a step. -/
def changes : List (String × Json) → List (Json.Change Step)
  | [] => []
  | (k, v) :: ms =>
    if k = "steps" then (k, (convertSlot v).map fun ss s => { s with steps := ss }) :: changes ms
    else if k ∈ record.keys then (k, .ok fun s => s.withField k v) :: changes ms
    else changes ms

/-- The steps in the value of a field, made one after the other. -/
def convertSlot : Json → Except Json.Misfit (List Step)
  | .array items => convertItems items
  | _ => .ok []

/-- The steps of the items of an array, made one after the other. -/
def convertItems : List Json → Except Json.Misfit (List Step)
  | [] => .ok []
  | j :: js => do
    let s ← convert j
    let ss ← convertItems js
    .ok (s :: ss)

end

end Step

namespace Workflow

/-- The workflow with a field as a member says. -/
def withField (w : Workflow) (key : String) (v : Json) : Workflow :=
  if key = "name" then { w with name := v.text?.getD "" }
  else if key = "trigger" then { w with trigger := Trigger.ofJson? v }
  else if key = "steps" then { w with steps := Step.ofSlot v }
  else w

/-- What a member changes about a workflow. -/
def change (key : String) (v : Json) : Except Json.Misfit (Workflow → Workflow) :=
  if key = "trigger" then (Trigger.convert v).map fun t w => { w with trigger := t }
  else if key = "steps" then (Step.convertSlot v).map fun ss w => { w with steps := ss }
  else .ok fun w => w.withField key v

/-- The workflow that a value describes, made member by member. -/
def convert : Json → Except Issue Workflow
  | .object ms =>
    match Json.makeChanges [] {}
        ((Members.only ms record.keys).map fun m => (m.1, change m.1 m.2)) with
    | .ok w => .ok w
    | .error m => .error (.unexpectedShape m)
  | j => .error (.notAnObject j.kindName)

end Workflow

end Flowline
