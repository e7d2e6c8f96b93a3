import Flowline.Json.Shape

/-!
# Diagnostics

What a caller is told about a workflow: a code, the phase that found it, a message, and the path
of the step it is about. Codes that begin with W are warnings, and every other code is fatal. A
path lists the positions, counted from one, on the way from the top to a step.
-/

namespace Flowline

/-- The path of a step among its siblings, counted from zero, below a parent. -/
def childPath (parent : Option String) (index : Nat) : String :=
  match parent with
  | some p => p ++ "." ++ toString (index + 1)
  | none => toString (index + 1)

/-- The phase that found something. -/
inductive Phase where
  | parse
  | validate
  | lower
  deriving DecidableEq, Repr

namespace Phase

/-- The name of a phase. -/
def name : Phase → String
  | parse => "Parse"
  | validate => "Validate"
  | lower => "Lower"

/-- The phases by name. -/
def named : List (String × Phase) := [parse, validate, lower].map fun p => (p.name, p)

end Phase

/-- A diagnostic. -/
structure Diagnostic where
  code : String
  phase : Phase
  message : String
  stepPath : Option String
  deriving DecidableEq, Repr

namespace Diagnostic

/-- The diagnostic on one line. -/
def display (d : Diagnostic) : String :=
  "[" ++ d.phase.name ++ ":" ++ d.code ++ "] " ++ d.message ++
    match d.stepPath with
    | some path => " (step " ++ path ++ ")"
    | none => ""

/-- A diagnostic that does not stop anything. -/
def isWarning (d : Diagnostic) : Bool :=
  match d.code.toList with
  | 'W' :: _ => true
  | _ => false

/-- The diagnostic of a value that is no object. -/
def isInvalidWorkflow (d : Diagnostic) : Bool := d.code == "P003"

/-- The diagnostics, one to a line. -/
def displayAll (ds : List Diagnostic) : String := "\n".intercalate (ds.map display)

/-- The value that a diagnostic is written as. -/
def toJson (d : Diagnostic) : Json :=
  .object [("code", .string d.code), ("phase", .string d.phase.name),
    ("message", .string d.message),
    ("step_path", match d.stepPath with | some path => .string path | none => .null)]

/-- A diagnostic as a record. -/
def record : Json.Record Diagnostic where
  name := "struct CompilerError"
  blank := ⟨"", .parse, "", none⟩
  fields := [
    .of "code" .required (.string "a string") fun d x => { d with code := x },
    .of "phase" .required (.variant Phase.named) fun d x => { d with phase := x },
    .of "message" .required (.string "a string") fun d x => { d with message := x },
    .of "step_path" .optional (.option (.string "a string")) fun d x => { d with stepPath := x }]

end Diagnostic

end Flowline
