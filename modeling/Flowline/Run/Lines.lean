import Flowline.Notice
import Flowline.Run.Entry
import Flowline.Workflow.OfJson

/-!
# The lines of a run

What a run says about each step, and at its beginning and end. A container has a line before and a
line behind the steps below it; every other step has two lines together. Lines of steps are indented
by their level.
-/

namespace Flowline

/-- Puts two blanks in front of a message for each level. -/
def indent (level : Nat) (message : String) : String :=
  String.ofList (List.replicate (2 * level) ' ') ++ message

/-- A line of a run before it is appended. -/
structure Line where
  status : Status
  message : String
  deriving DecidableEq, Repr

namespace Line

/-- The entry of a line that is appended at a time. -/
def entry (l : Line) (time : String) : Entry := ⟨l.message, l.status, time⟩

/-- An indented line. -/
def atLevel (level : Nat) (status : Status) (message : String) : Line :=
  ⟨status, indent level message⟩

end Line

/-- The lines of a step. -/
inductive StepLines where
  /-- The lines before and behind the steps below a container. -/
  | container (opening closing : String)
  /-- The two lines of any other step. -/
  | action (info success : String)
  deriving DecidableEq, Repr

namespace Step

/-- The lines of a step at a position among its siblings. -/
def lines (s : Step) (index : Nat) : StepLines :=
  let name := s.displayName index
  let config := fun (key default : String) => (s.configText? key).getD default
  match s.kind with
  | .subWorkflow => .container ("▶ Starting: " ++ name) ("✓ Completed: " ++ name)
  | .filter =>
    .action ("Checking condition: " ++ config "condition" "filter criteria")
      "✓ Condition met, proceeding"
  | .slackMessage =>
    .action ("Sending Slack message to " ++ config "channel" "#general")
      ("✓ Message sent: \"" ++ config "message" name ++ "\"")
  | .email => .action ("Sending email to " ++ config "to" "recipient") "✓ Email sent"
  | .httpRequest =>
    .action ("Making HTTP request to " ++ config "url" "API endpoint") "✓ Request completed"
  | .delay => .action ("Waiting for " ++ config "duration" "specified time") "✓ Delay completed"
  | .action => .action ("Executing: " ++ name) "✓ Step completed"
  | .other _ => .action ("Executing: " ++ name) "✓ Step completed"

/-- Only a container has lines before and behind other steps. -/
theorem children_eq_nil_of_lines {s : Step} {index : Nat} {info success : String}
    (h : s.lines index = .action info success) : s.children = [] := by
  have hkind : s.kind ≠ .subWorkflow := fun hk => by simp [lines, hk] at h
  simp [children, isContainer, hkind]

/-- What is noticed when the lines of a step are asked for. -/
def runNotices (s : Step) (index : Nat) : List Notice :=
  match s.kind with
  | .other tag => [.plainAction tag (s.displayName index)]
  | _ => []

end Step

namespace Workflow

/-- The first line of a run. -/
def startLine (w : Workflow) : Line := ⟨.success, "Starting workflow: " ++ w.displayName⟩

/-- The line of the trigger, which is manual unless its kind has a tag. -/
def triggerLine (w : Workflow) : Line :=
  let tag := match w.trigger with
    | some t => t.kind.tag
    | none => ""
  ⟨.info, "Trigger activated: " ++ if tag = "" then "manual" else tag⟩

/-- The last line of a run. -/
def finalLine : Line := ⟨.success, "Workflow completed successfully!"⟩

end Workflow

end Flowline
