import Flowline.Run.Machine
import Flowline.Run.Outcome

/-!
# Executing a run

An execution takes the actions of its machine one at a time. Before every line it looks whether it
has been cancelled. During a pause it sleeps until a deadline, and a cancellation wakes it too.
When a pause is over at the moment of a cancellation, either may be seen first; a patient
execution sees the end of the pause.
-/

namespace Flowline

/-- A run on its way. -/
structure Execution where
  machine : Machine
  emitted : Nat := 0
  deadline : Option Nat := none
  outcome : Option Outcome := none

namespace Execution

/-- The execution of a workflow before its first action. -/
def start (w : Workflow) (d : Delays) : Execution := { machine := .start w d }

/-- The end of an execution that sees a cancellation. -/
def stop (e : Execution) : Execution :=
  { e with deadline := none, outcome := some (.cancelled e.emitted) }

/-- The execution behind a pause. -/
def wake (e : Execution) : Execution := { e with deadline := none }

/-- Takes the next action at a time. Gives the execution behind it, the line that is appended, and
what is noticed. -/
def step (e : Execution) (cancelled patient : Bool) (now : Nat) :
    Execution × Option Line × List Notice :=
  match e.machine.next with
  | none => ({ e with outcome := some (.completed e.emitted) }, none, [])
  | some (.say line, notices, machine) =>
    if cancelled then ({ e with machine }.stop, none, notices)
    else ({ e with machine, emitted := e.emitted + 1 }, some line, notices)
  | some (.pause ms, notices, machine) =>
    if cancelled then
      (if patient then { e with machine } else { e with machine }.stop, none, notices)
    else ({ e with machine, deadline := some (now + ms) }, none, notices)

end Execution

/-- When a simulated run is cancelled: as soon as it has appended so many lines, or during the
sleep of a given number, counted from one. -/
structure Cancellation where
  afterLines : Option Nat := none
  atSleep : Option Nat := none
  deriving DecidableEq, Repr

/-- A run on a clock that stands still except during pauses. -/
structure Simulation where
  execution : Execution
  clock : Nat
  sleeps : List Nat := []
  log : List Entry := []
  notices : List Notice := []

namespace Simulation

/-- Takes one step, or ends the present sleep. -/
def step (c : Cancellation) (s : Simulation) : Simulation :=
  match s.execution.deadline with
  | some deadline =>
    if c.atSleep = some s.sleeps.length then { s with execution := s.execution.stop }
    else { s with execution := s.execution.wake, clock := deadline }
  | none =>
    let cancelled := match c.afterLines with
      | some n => decide (n ≤ s.execution.emitted)
      | none => false
    let (execution, line, notices) := s.execution.step cancelled false s.clock
    { s with
      execution
      sleeps := s.sleeps ++ (execution.deadline.map (· - s.clock)).toList
      log := s.log ++ (line.map fun l => l.entry (timeOfDay s.clock)).toList
      notices := s.notices ++ notices }

/-- Takes steps until the run has ended. -/
def run (c : Cancellation) : Nat → Simulation → Simulation
  | 0, s => s
  | fuel + 1, s => if s.execution.outcome.isSome then s else run c fuel (s.step c)

/-- The simulation of a whole run that begins at a time. Every action takes a step, and a sleep
takes one more. -/
def ofWorkflow (w : Workflow) (d : Delays) (c : Cancellation) (start : Nat) : Simulation :=
  let execution := Execution.start w d
  run c (2 * execution.machine.actionCount + 1) { execution, clock := start }

/-- How the run ended. -/
def outcome (s : Simulation) : Outcome :=
  s.execution.outcome.getD (.cancelled s.execution.emitted)

end Simulation

end Flowline
