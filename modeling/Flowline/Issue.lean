import Flowline.Diagnostic
import Flowline.Workflow.Basic

/-!
# What can be wrong with a workflow

Each issue is a fact about a workflow or its text, with what the fact is about. `diagnostic` gives
it a code and words. A path of `none` stands for the trigger, or for the workflow as a whole.
-/

namespace Flowline

/-- What can be wrong with a workflow. -/
inductive Issue where
  /-- The text is no JSON. -/
  | malformedText (error : Json.TextError)
  /-- A generated text has no opening brace before a closing one. -/
  | noObject
  /-- What a generated text holds between its braces is no JSON. -/
  | malformedObject (error : Json.TextError)
  /-- The value is no object. -/
  | notAnObject (kind : String)
  /-- A member of the object does not fit into a workflow. -/
  | unexpectedShape (misfit : Json.Misfit)
  /-- A step is nested deeper than allowed. -/
  | tooDeep (depth limit : Nat) (path : String)
  /-- There are more steps than allowed. -/
  | tooManySteps (count limit : Nat)
  /-- A step has the name of an earlier node. -/
  | duplicateName (name : String) (first : Option String) (path : String)
  /-- A node has the name of an earlier one, so that one of its connections would be lost. -/
  | reusedName (name : String) (first : Option String) (path : Option String)
  /-- The kind of a step has no meaning. -/
  | unknownStep (tag name path : String)
  /-- The kind of the trigger has no meaning. -/
  | unknownTrigger (tag : String)
  /-- A step that is no container has steps below it. -/
  | ignoredSteps (name : String) (kind : StepKind) (count : Nat) (path : String)
  deriving DecidableEq, Repr

namespace Issue

/-- The code of an issue. -/
def code : Issue → String
  | malformedText _ => "P001"
  | noObject => "P002"
  | malformedObject _ => "P002"
  | notAnObject _ => "P003"
  | unexpectedShape _ => "P004"
  | tooDeep .. => "V001"
  | tooManySteps .. => "V002"
  | duplicateName .. => "V003"
  | reusedName .. => "L001"
  | unknownStep .. => "W001"
  | unknownTrigger _ => "W002"
  | ignoredSteps .. => "W003"

/-- The phase that finds an issue. -/
def phase : Issue → Phase
  | malformedText _ => .parse
  | noObject => .parse
  | malformedObject _ => .parse
  | notAnObject _ => .parse
  | unexpectedShape _ => .parse
  | reusedName .. => .lower
  | _ => .validate

/-- The step that an issue is about. -/
def path? : Issue → Option String
  | tooDeep _ _ path => some path
  | duplicateName _ _ path => some path
  | reusedName _ _ path => path
  | unknownStep _ _ path => some path
  | ignoredSteps _ _ _ path => some path
  | _ => none

/-- The words of an issue. -/
def message : Issue → String
  | malformedText e => "Failed to parse workflow JSON: " ++ e.message
  | noObject => "No JSON object found in generated text"
  | malformedObject e => "Generated text contains malformed JSON: " ++ e.message
  | notAnObject kind => "Invalid workflow: workflow must be an object, found " ++ kind
  | unexpectedShape m => "Workflow object has an unexpected shape: " ++ m.message
  | tooDeep depth limit _ =>
    "Step nesting depth " ++ toString depth ++ " exceeds the limit of " ++ toString limit
  | tooManySteps count limit =>
    "Workflow has " ++ toString count ++ " steps, limit is " ++ toString limit
  | duplicateName name first _ =>
    "Duplicate node name '" ++ name ++ "' (first used " ++
      (match first with | some p => "at step " ++ p | none => "by the trigger") ++ ")"
  | reusedName name first _ =>
    "Node name '" ++ name ++ "' is used more than once (first at " ++
      (match first with | some p => "step " ++ p | none => "the trigger") ++
      "); connections are keyed by name"
  | unknownStep tag name _ =>
    if tag = "" then "Step '" ++ name ++ "' has no type, treated as a no-op"
    else "Unknown step type '" ++ tag ++ "' on '" ++ name ++ "', treated as a no-op"
  | unknownTrigger tag =>
    if tag = "" then "Trigger has no type, treated as manual"
    else "Unknown trigger type '" ++ tag ++ "', treated as manual"
  | ignoredSteps name kind count _ =>
    "Step '" ++ name ++ "' of type '" ++ kind.tag ++ "' has " ++ toString count ++
      " nested steps; only sub_workflow steps are traversed"

/-- The diagnostic of an issue. -/
def diagnostic (i : Issue) : Diagnostic := ⟨i.code, i.phase, i.message, i.path?⟩

@[simp] theorem code_diagnostic (i : Issue) : i.diagnostic.code = i.code := rfl

@[simp] theorem phase_diagnostic (i : Issue) : i.diagnostic.phase = i.phase := rfl

@[simp] theorem message_diagnostic (i : Issue) : i.diagnostic.message = i.message := rfl

@[simp] theorem stepPath_diagnostic (i : Issue) : i.diagnostic.stepPath = i.path? := rfl

/-- An issue that does not stop anything. -/
def isWarning : Issue → Bool
  | unknownStep .. => true
  | unknownTrigger _ => true
  | ignoredSteps .. => true
  | _ => false

theorem isWarning_diagnostic (i : Issue) : i.diagnostic.isWarning = i.isWarning := by
  cases i <;> simp [diagnostic, code, Diagnostic.isWarning, isWarning]

end Issue

end Flowline
