import Flowline.Command.Program
import Flowline.Proofs.Graph.Identities
import Flowline.Proofs.Validation.Severity

/-!
# The effects of commands

What a command does in an environment that stays as it is, apart from what it complains of. Reading
the configuration and the workflow either gives them or ends the command with nothing done, and
printing issues does not count. So a command comes down to what it does with a workflow.
-/

namespace Flowline.Command

namespace Effects

/-- What has been done apart from complaints. -/
def quiet (e : Effects) : Effects := { e with stderr := "" }

@[simp] theorem exit_quiet (e : Effects) : e.quiet.exit = e.exit := rfl

@[simp] theorem stdout_quiet (e : Effects) : e.quiet.stdout = e.stdout := rfl

@[simp] theorem written_quiet (e : Effects) : e.quiet.written = e.written := rfl

/-- The effects of a command that fails before it does anything. -/
def failure : Effects := { exit := 1 }

end Effects

namespace Environment

/-- The configuration that a command is given, if it can be read. -/
def config? (env : Environment) : Option String → Option Config
  | none => some {}
  | some file => (env.read file).toOption.bind fun text => (Config.ofText text).toOption

/-- The workflow in a file, if it can be read. -/
def workflow? (env : Environment) (file : String) : Option Workflow :=
  (env.read file).toOption.bind fun text => (Workflow.parse text).toOption

end Environment

variable (env : Environment)

/-! ## Failures and reports -/

theorem quiet_fail (message : String) (causes : List String) :
    ((fail message causes).within env).quiet = .failure := rfl

theorem quiet_failWith (issues : List Issue) : ((failWith issues).within env).quiet = .failure :=
  rfl

theorem quiet_report (issues : List Issue) (next : Program) :
    ((report issues next).within env).quiet = (next.within env).quiet := by
  induction issues with
  | nil => rfl
  | cons i issues ih => exact ih

/-! ## Files -/

theorem quiet_readConfig (file : Option String) (next : Config → Program) :
    ((readConfig file next).within env).quiet =
      match env.config? file with
      | some c => ((next c).within env).quiet
      | none => .failure := by
  cases file with
  | none => rfl
  | some file =>
    rw [readConfig, Program.within, Environment.config?]
    cases env.read file with
    | error cause => rfl
    | ok text =>
      cases hconfig : Config.ofText text with
      | ok c => simp [hconfig, Except.toOption]
      | error e => simp [hconfig, Except.toOption, quiet_fail]

theorem quiet_readWorkflow (file : String) (next : Workflow → Program) :
    ((readWorkflow file next).within env).quiet =
      match env.workflow? file with
      | some w => ((next w).within env).quiet
      | none => .failure := by
  rw [readWorkflow, readFile, Program.within, Environment.workflow?]
  cases env.read file with
  | error cause => rfl
  | ok text =>
    cases hparse : Workflow.parse text with
    | ok w => simp [hparse, Except.toOption]
    | error i => simp [hparse, Except.toOption, quiet_failWith]

end Flowline.Command
