import Flowline.Proofs.Run.Script
import Flowline.Run.Execution

/-!
# Traces

A trace is an execution with everything it has done. At every step the world decides what the clock
shows, whether the run has been cancelled, and which of the two is seen first if a pause ends at the
moment of a cancellation; so a statement about all worlds holds for every clock and every order of
events. `run_script` says that an execution which nobody cancels follows the script of its machine
to the end.
-/

namespace Flowline

/-- The line that an entry was made of. -/
def Entry.line (e : Entry) : Line := ⟨e.status, e.message⟩

/-- What the world shows an execution at a step. -/
structure Moment where
  now : Nat := 0
  time : String := ""
  cancelled : Bool := false
  patient : Bool := false

/-- An execution with the entries it has appended, the lines and pauses it has come to in order,
what was noticed, and how often its stack was popped. -/
structure Trace where
  execution : Execution
  log : List Entry := []
  actions : List Action := []
  notices : List Notice := []
  pops : Nat := 0

namespace Trace

/-- The trace of a run in front of a workflow. -/
def start (w : Workflow) (d : Delays) : Trace := { execution := .start w d }

/-- The lines that were appended. -/
def lines (t : Trace) : List Line := t.log.map Entry.line

/-- Takes the next action, or ends the present pause. -/
def step (m : Moment) (t : Trace) : Trace :=
  match t.execution.deadline with
  | some _ =>
    { t with
      execution := if m.cancelled && !m.patient then t.execution.stop else t.execution.wake }
  | none =>
    let (execution, line, notices) := t.execution.step m.cancelled m.patient m.now
    { execution
      log := t.log ++ (line.map fun l => l.entry m.time).toList
      actions := t.actions ++ (line.map .say).toList ++
        (execution.deadline.map fun deadline => .pause (deadline - m.now)).toList
      notices := t.notices ++ notices
      pops := t.pops + t.execution.machine.popsNext }

/-- Takes so many steps, or fewer if the run ends before. -/
def run (world : Nat → Moment) : Nat → Trace → Trace
  | 0, t => t
  | n + 1, t =>
    if t.execution.outcome.isSome then t
    else run (fun i => world (i + 1)) n (t.step (world 0))

theorem run_of_ended {t : Trace} (h : t.execution.outcome.isSome) (world : Nat → Moment) (n : Nat) :
    t.run world n = t := by
  cases n with
  | zero => rfl
  | succ n => rw [run, if_pos h]

theorem run_succ {t : Trace} (h : t.execution.outcome = none) (world : Nat → Moment) (n : Nat) :
    t.run world (n + 1) = (t.step (world 0)).run (fun i => world (i + 1)) n := by
  rw [run, h]
  rfl

/-! ## Steps that nobody disturbs -/

section Undisturbed

variable {t : Trace} {moment : Moment} {notices : List Notice} {machine : Machine}

/-- A line is appended and counted. -/
theorem step_say {line : Line} (hcancelled : moment.cancelled = false)
    (hdeadline : t.execution.deadline = none)
    (hnext : t.execution.machine.next = some (.say line, notices, machine)) :
    t.step moment = {
      execution := { t.execution with machine, emitted := t.execution.emitted + 1 }
      log := t.log ++ [line.entry moment.time]
      actions := t.actions ++ [.say line]
      notices := t.notices ++ notices
      pops := t.pops + t.execution.machine.popsNext } := by
  simp [step, Execution.step, hdeadline, hnext, hcancelled]

/-- A pause is asked for, and the execution sleeps. -/
theorem step_pause {ms : Nat} (hcancelled : moment.cancelled = false)
    (hdeadline : t.execution.deadline = none)
    (hnext : t.execution.machine.next = some (.pause ms, notices, machine)) :
    t.step moment = { t with
      execution := { t.execution with machine, deadline := some (moment.now + ms) }
      actions := t.actions ++ [.pause ms]
      notices := t.notices ++ notices
      pops := t.pops + t.execution.machine.popsNext } := by
  simp [step, Execution.step, hdeadline, hnext, hcancelled]

/-- A sleep comes to its end. -/
theorem step_wake (hcancelled : moment.cancelled = false)
    (hdeadline : t.execution.deadline.isSome) :
    t.step moment = { t with execution := { t.execution with deadline := none } } := by
  obtain ⟨deadline, h⟩ := Option.isSome_iff_exists.mp hdeadline
  simp [step, h, hcancelled, Execution.wake]

/-- A machine that has nothing left to do ends the run. -/
theorem step_end (hdeadline : t.execution.deadline = none)
    (hnext : t.execution.machine.next = none) :
    t.step moment = { t with
      execution := { t.execution with outcome := some (.completed t.execution.emitted) } } := by
  have hpops : t.execution.machine.popsNext = 0 := by
    simp [Machine.popsNext, (Machine.next_eq_none hnext).2]
  simp [step, Execution.step, hdeadline, hnext, hpops]

end Undisturbed

/-! ## Runs that nobody disturbs -/

/-- A world in which nobody cancels. -/
def Undisturbed (world : Nat → Moment) : Prop := ∀ i, (world i).cancelled = false

theorem Undisturbed.later {world : Nat → Moment} (h : Undisturbed world) (steps : Nat) :
    Undisturbed fun i => world (i + steps) := fun i => h (i + steps)

/-- A trace that has come to one more action, with its pause if it is one, and goes on with a
machine. -/
structure Takes (t : Trace) (a : Action) (m : Machine) (t' : Trace) : Prop where
  machine : t'.execution.machine = m
  deadline : t'.execution.deadline = none
  outcome : t'.execution.outcome = none
  emitted : t'.execution.emitted = t.execution.emitted + a.line?.toList.length
  lines : t'.lines = t.lines ++ a.line?.toList
  actions : t'.actions = t.actions ++ [a]
  pops : t'.pops = t.pops + t.execution.machine.popsNext

/-- The next action of a machine is taken in one step, and in two if it is a pause. -/
theorem exists_takes {t : Trace} (hdeadline : t.execution.deadline = none)
    (houtcome : t.execution.outcome = none) {world : Nat → Moment} (hworld : Undisturbed world)
    {a : Action} {notices : List Notice} {m : Machine}
    (hnext : t.execution.machine.next = some (a, notices, m)) :
    ∃ steps t', steps ≤ 2 ∧ t.Takes a m t' ∧
      ∀ n, t.run world (n + steps) = t'.run (fun i => world (i + steps)) n := by
  cases a with
  | say line =>
    have hstep := step_say (hworld 0) hdeadline hnext
    refine ⟨1, t.step (world 0), by omega, ?_, fun n => run_succ houtcome world n⟩
    rw [hstep]
    exact ⟨rfl, hdeadline, houtcome, rfl, List.map_append, rfl, rfl⟩
  | pause ms =>
    have hstep := step_pause (hworld 0) hdeadline hnext
    have hwake := step_wake (t := t.step (world 0)) (hworld 1) (by rw [hstep]; rfl)
    refine ⟨2, (t.step (world 0)).step (world 1), by omega, ?_, fun n => ?_⟩
    · rw [hwake, hstep]
      exact ⟨rfl, rfl, houtcome, rfl, (List.append_nil _).symm, rfl, rfl⟩
    · rw [run_succ houtcome, run_succ (by rw [hstep]; exact houtcome)]

/-- A trace in which a run has gone on to its end, and had to come to the actions of a script and
to pop its stack so often. -/
structure Completes (t : Trace) (script : List Action) (pops : Nat) (t' : Trace) : Prop where
  outcome : t'.execution.outcome =
    some (.completed (t.execution.emitted + (script.filterMap Action.line?).length))
  lines : t'.lines = t.lines ++ script.filterMap Action.line?
  actions : t'.actions = t.actions ++ script
  pops : t'.pops = t.pops + pops

theorem Takes.completes {t t' t'' : Trace} {a : Action} {m : Machine} {script : List Action}
    {pops : Nat} (h : t.Takes a m t') (hrest : t'.Completes script pops t'') :
    t.Completes (a :: script) (t.execution.machine.popsNext + pops) t'' := by
  have hlines : (a :: script).filterMap Action.line? =
      a.line?.toList ++ script.filterMap Action.line? := by
    cases h : a.line? <;> simp [h]
  refine ⟨?_, ?_, ?_, ?_⟩
  · rw [hrest.outcome, h.emitted, hlines, List.length_append, Nat.add_assoc]
  · rw [hrest.lines, h.lines, hlines, List.append_assoc]
  · rw [hrest.actions, h.actions, List.append_assoc]
    rfl
  · rw [hrest.pops, h.pops, Nat.add_assoc]

/-- An execution follows the script of its machine to the end. Two steps for every action are
enough, and one to end the run; more change nothing. -/
theorem run_script {script : List Action} {t : Trace}
    (hscript : t.execution.machine.script = script) (hdeadline : t.execution.deadline = none)
    (houtcome : t.execution.outcome = none) {world : Nat → Moment} (hworld : Undisturbed world)
    {n : Nat} (hn : 2 * script.length + 1 ≤ n) :
    t.Completes script (Work.popsAll t.execution.machine.stack) (t.run world n) := by
  -- The induction is on the script that is left: every action that is taken shortens it, also one
  -- that makes the stack grow.
  induction script generalizing t world n with
  | nil =>
    cases hnext : t.execution.machine.next with
    | some taken =>
      rw [(Machine.script_next hnext).1] at hscript
      cases hscript
    | none =>
      obtain ⟨n, rfl⟩ : ∃ k, n = k + 1 := ⟨n - 1, by omega⟩
      rw [run_succ houtcome, step_end hdeadline hnext, run_of_ended rfl,
        (Machine.next_eq_none hnext).2]
      exact ⟨rfl, (List.append_nil _).symm, (List.append_nil _).symm, rfl⟩
  | cons a script ih =>
    cases hnext : t.execution.machine.next with
    | none =>
      rw [(Machine.next_eq_none hnext).1] at hscript
      cases hscript
    | some taken =>
      obtain ⟨b, notices, m⟩ := taken
      obtain ⟨htaken, hpops⟩ := Machine.script_next hnext
      obtain ⟨rfl, hrest⟩ := List.cons.inj (hscript.symm.trans htaken)
      obtain ⟨steps, t', hsteps, htakes, hrun⟩ := exists_takes hdeadline houtcome hworld hnext
      rw [List.length_cons] at hn
      obtain ⟨n, rfl⟩ : ∃ k, n = k + steps := ⟨n - steps, by omega⟩
      have hcompletes := ih (by rw [htakes.machine, hrest]) htakes.deadline htakes.outcome
        (hworld.later steps) (n := n) (by omega)
      rw [hrun, hpops, ← htakes.machine]
      exact htakes.completes hcompletes

end Trace

end Flowline
