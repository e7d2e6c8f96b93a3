import Flowline.Proofs.Run.Trace

/-!
# Runs to the end

A run that nobody cancels says its whole transcript, whatever its clock shows. The simulation is one
such run: its clock stands still except during pauses, and `shows_run` finds the world in which a
trace does the same.
-/

namespace Flowline

namespace Simulation

/-- A trace that has done what a simulation has done. -/
structure Shows (s : Simulation) (t : Trace) : Prop where
  execution : t.execution = s.execution
  log : t.log = s.log
  sleeps : t.actions.filterMap Action.pause? = s.sleeps
  notices : t.notices = s.notices

/-- What the clock of a simulation shows, while nobody cancels. -/
def moment (s : Simulation) : Moment := { now := s.clock, time := timeOfDay s.clock }

/-- What the clock of a simulation shows at every step from now on. -/
def world (s : Simulation) : Nat → Moment
  | 0 => s.moment
  | n + 1 => world (s.step {}) n

theorem undisturbed_world (s : Simulation) : Trace.Undisturbed s.world := by
  intro n
  induction n generalizing s with
  | zero => rfl
  | succ n ih => exact ih (s.step {})

theorem pauses_of_line (line : Option Line) :
    (line.map Action.say).toList.filterMap Action.pause? = [] := by
  cases line <;> rfl

theorem pauses_of_deadline (deadline : Option Nat) (now : Nat) :
    (deadline.map fun deadline => Action.pause (deadline - now)).toList.filterMap Action.pause? =
      (deadline.map (· - now)).toList := by
  cases deadline <;> rfl

theorem shows_step {s : Simulation} {t : Trace} (h : s.Shows t) :
    (s.step {}).Shows (t.step s.moment) := by
  obtain ⟨hexecution, hlog, hsleeps, hnotices⟩ := h
  cases hdeadline : s.execution.deadline with
  | some deadline =>
    simp only [step, Trace.step, moment, hexecution, hdeadline]
    exact ⟨rfl, hlog, hsleeps, hnotices⟩
  | none =>
    simp only [step, Trace.step, moment, hexecution, hdeadline]
    refine ⟨rfl, ?_, ?_, ?_⟩
    · rw [hlog]
    · rw [List.filterMap_append, List.filterMap_append, hsleeps, pauses_of_line, pauses_of_deadline,
        List.append_nil]
    · rw [hnotices]

theorem shows_run {s : Simulation} {t : Trace} (h : s.Shows t) (n : Nat) :
    (s.run {} n).Shows (t.run s.world n) := by
  induction n generalizing s t with
  | zero => exact h
  | succ n ih =>
    rw [run, Trace.run, h.execution]
    split
    · exact h
    · exact ih (shows_step h)

end Simulation

namespace Workflow

theorem popsAll_start (w : Workflow) (d : Delays) :
    Work.popsAll (Machine.start w d).stack = w.stepCount + w.containers.length :=
  Work.popsAll_visits 0 0 w.steps

theorem completes_start (w : Workflow) (d : Delays) {world : Nat → Moment}
    (hworld : Trace.Undisturbed world) {n : Nat} (hn : 2 * (w.script d).length + 1 ≤ n) :
    (Trace.start w d).Completes (w.script d) (w.stepCount + w.containers.length)
      ((Trace.start w d).run world n) := by
  rw [← popsAll_start w d]
  exact Trace.run_script (Machine.script_start w d) rfl rfl hworld hn

section Completed

variable {w : Workflow} {d : Delays} {pops : Nat} {t : Trace}

theorem outcome_of_completes (h : (Trace.start w d).Completes (w.script d) pops t) :
    t.execution.outcome = some (.completed (2 * w.stepCount + 3)) := by
  rw [h.outcome, lines_script, length_transcript]
  exact congrArg (fun n => some (Outcome.completed n)) (Nat.zero_add _)

theorem lines_of_completes (h : (Trace.start w d).Completes (w.script d) pops t) :
    t.log.map Entry.line = w.transcript :=
  h.lines.trans (lines_script w d)

theorem actions_of_completes (h : (Trace.start w d).Completes (w.script d) pops t) :
    t.actions = w.script d :=
  h.actions

theorem pauses_of_completes (h : (Trace.start w d).Completes (w.script d) pops t) :
    t.actions.filterMap Action.pause? =
      d.trigger :: (List.replicate w.stepCount d.step ++ [d.finish]) := by
  rw [actions_of_completes h, pauses_script]

theorem pops_of_completes (h : (Trace.start w d).Completes (w.script d) pops t) : t.pops = pops :=
  h.pops.trans (Nat.zero_add pops)

end Completed

theorem shows_start (w : Workflow) (d : Delays) (clock : Nat) :
    Simulation.Shows { execution := .start w d, clock } (Trace.start w d) :=
  ⟨rfl, rfl, rfl, rfl⟩

/-- The simulation that is not cancelled has done what a trace does in its world. -/
theorem shows_ofWorkflow (w : Workflow) (d : Delays) (clock : Nat) :
    (Simulation.ofWorkflow w d {} clock).Shows
      ((Trace.start w d).run (Simulation.world { execution := .start w d, clock })
        (2 * (w.script d).length + 1)) := by
  rw [← Machine.script_start w d, Machine.length_script]
  exact Simulation.shows_run (shows_start w d clock) _

/-- So it has done what a completed trace has done. -/
theorem exists_completes_simulation (w : Workflow) (d : Delays) (clock : Nat) :
    ∃ t, (Simulation.ofWorkflow w d {} clock).Shows t ∧
      (Trace.start w d).Completes (w.script d) (w.stepCount + w.containers.length) t :=
  ⟨_, shows_ofWorkflow w d clock,
    completes_start w d (Simulation.undisturbed_world _) (Nat.le_refl _)⟩

/-- In every world in which nobody cancels, a run ends. It has then appended the whole transcript,
and asked for the pause of the trigger, for one pause behind the last line of each step, and for the
pause before the end. Its stack was popped once for each visited step and once more for each
container. The simulation that is not cancelled is such a run. -/
theorem undisturbed_run_completes (w : Workflow) (d : Delays) (world : Nat → Moment)
    (hworld : ∀ i, (world i).cancelled = false) :
    (∃ steps, ∀ n, steps ≤ n →
      let t := (Trace.start w d).run world n
      t.execution.outcome = some (.completed (2 * w.stepCount + 3)) ∧
        t.log.map Entry.line = w.transcript ∧
        t.actions = w.script d ∧
        t.actions.filterMap Action.pause? =
          d.trigger :: (List.replicate w.stepCount d.step ++ [d.finish]) ∧
        t.pops = w.stepCount + w.containers.length) ∧
    ∀ clock,
      let s := Simulation.ofWorkflow w d {} clock
      s.outcome = .completed (2 * w.stepCount + 3) ∧
        s.log.map Entry.line = w.transcript ∧
        s.sleeps = d.trigger :: (List.replicate w.stepCount d.step ++ [d.finish]) := by
  constructor
  · refine ⟨2 * (w.script d).length + 1, fun n hn => ?_⟩
    have h := completes_start w d hworld hn
    exact ⟨outcome_of_completes h, lines_of_completes h, actions_of_completes h,
      pauses_of_completes h, pops_of_completes h⟩
  · intro clock
    obtain ⟨t, hshows, h⟩ := exists_completes_simulation w d clock
    refine ⟨?_, ?_, ?_⟩
    · rw [Simulation.outcome, ← hshows.execution, outcome_of_completes h]
      rfl
    · rw [← hshows.log, lines_of_completes h]
    · rw [← hshows.sleeps, pauses_of_completes h]

/-- A container with a container below it, a step that keeps a step it does not visit, and steps of
other kinds with and without a configuration, on a clock that goes backwards. -/
theorem undisturbed_run_completes_nested :
    let w : Workflow := {
      name := "Onboarding", trigger := some { kind := .schedule }
      steps := [
        { kind := .subWorkflow, name := some "Welcome",
          steps := [
            { kind := .email, config := [("to", .string "Ada")] },
            { kind := .subWorkflow, steps := [{ kind := .slackMessage, name := some "Hi" }] }] },
        { kind := .filter, steps := [{ kind := .email }] },
        { kind := .delay, config := [("duration", .int 5)] },
        { kind := .other "sms" }] }
    let d : Delays := { trigger := 30, step := 20, finish := 10 }
    let world : Nat → Moment := fun i => { now := 100 - i, time := toString i }
    (∀ i, (world i).cancelled = false) ∧
      ∃ n, let t := (Trace.start w d).run world n
        t.execution.outcome = some (.completed 17) ∧
        t.log.map Entry.line = [
          ⟨.success, "Starting workflow: Onboarding"⟩,
          ⟨.info, "Trigger activated: schedule"⟩,
          ⟨.info, "▶ Starting: Welcome"⟩,
          ⟨.info, "  Sending email to Ada"⟩,
          ⟨.success, "  ✓ Email sent"⟩,
          ⟨.info, "  ▶ Starting: Step 2"⟩,
          ⟨.info, "    Sending Slack message to #general"⟩,
          ⟨.success, "    ✓ Message sent: \"Hi\""⟩,
          ⟨.success, "  ✓ Completed: Step 2"⟩,
          ⟨.success, "✓ Completed: Welcome"⟩,
          ⟨.info, "Checking condition: filter criteria"⟩,
          ⟨.success, "✓ Condition met, proceeding"⟩,
          ⟨.info, "Waiting for 5"⟩,
          ⟨.success, "✓ Delay completed"⟩,
          ⟨.info, "Executing: Step 4"⟩,
          ⟨.success, "✓ Step completed"⟩,
          ⟨.success, "Workflow completed successfully!"⟩] ∧
        t.actions.filterMap Action.pause? = [30, 20, 20, 20, 20, 20, 20, 20, 10] ∧
        t.pops = 9 := by
  intro w d world
  have hworld (i : Nat) : (world i).cancelled = false := rfl
  obtain ⟨steps, h⟩ := (undisturbed_run_completes w d world hworld).1
  obtain ⟨houtcome, hlines, -, hpauses, hpops⟩ := h steps (Nat.le_refl steps)
  exact ⟨hworld, steps, houtcome, hlines.trans (by decide), hpauses, hpops⟩

end Workflow

end Flowline
