import Flowline.Proofs.Run.Lockstep
import Flowline.Proofs.Workflow.Ignored

/-!
# Runs of bare workflows

A run keeps steps on its stack, with all that is ignored about them. Taking that away from the stack
commutes with every step that the run takes, in every world, so it commutes with the whole run; and
nothing that a run leaves behind is taken away. So alike workflows leave the same behind, whether or
not they are cancelled.
-/

namespace Flowline

namespace Step

theorem lines_bare (s : Step) (index : Nat) : s.bare.lines index = s.lines index :=
  lines_congr (kind_bare s) (config_bare s) (displayName_bare s index)

theorem runNotices_bare (s : Step) (index : Nat) :
    s.bare.runNotices index = s.runNotices index := by
  rw [runNotices, runNotices, kind_bare, displayName_bare]

end Step

/-! ## Work -/

namespace Work

/-- A piece of work with a bare step. -/
def bare : Work → Work
  | visit s index level => visit s.bare index level
  | complete closing level => complete closing level

theorem visits_bare (level index : Nat) (ss : List Step) :
    visits level index (ss.map Step.bare) = (visits level index ss).map bare := by
  induction ss generalizing index with
  | nil => rfl
  | cons s ss ih =>
    rw [List.map_cons, visits, visits, ih]
    rfl

/-- Bare work gives the same actions and leaves bare work. -/
theorem expand_bare (stepDelay : Nat) (work : Work) :
    work.bare.expand stepDelay =
      ((work.expand stepDelay).1, (work.expand stepDelay).2.1,
        (work.expand stepDelay).2.2.map bare) := by
  cases work with
  | complete closing level => rfl
  | visit s index level =>
    rw [bare, expand, expand, Step.lines_bare]
    cases s.lines index with
    | container opening closing =>
      simp only [Step.children_bare, visits_bare, List.map_append, List.map_cons, List.map_nil,
        bare]
    | action info success => rfl

theorem notices_bare (work : Work) : work.bare.notices = work.notices := by
  cases work with
  | complete closing level => rfl
  | visit s index level => exact s.runNotices_bare index

theorem actionCountAll_map_bare (stack : List Work) :
    actionCountAll (stack.map bare) = actionCountAll stack := by
  have hcount (s : Step) : s.bare.count = s.count := by
    rw [Step.count_eq, Step.count_eq, Step.children_bare, Step.countAll_map Step.children_bare]
  induction stack with
  | nil => rfl
  | cons work stack ih =>
    rw [List.map_cons, actionCountAll, actionCountAll, ih]
    cases work with
    | complete closing level => rfl
    | visit s index level => rw [bare, actionCount, actionCount, hcount]

end Work

/-! ## Machines and executions -/

namespace Machine

/-- A machine with bare work. -/
def bare (m : Machine) : Machine := { m with stack := m.stack.map Work.bare }

theorem start_bare (w : Workflow) (d : Delays) : start w.bare d = (start w d).bare := by
  rw [start, start, bare, ← Work.visits_bare]
  rfl

/-- A bare machine takes the same action. -/
theorem next_bare (m : Machine) :
    m.bare.next = m.next.map fun taken => (taken.1, taken.2.1, taken.2.2.bare) := by
  rcases m with ⟨due, stack, ending, stepDelay⟩
  rcases due with _ | ⟨a, due⟩
  · rcases stack with _ | ⟨work, stack⟩
    · rcases ending with _ | ⟨a, ending⟩
      · rfl
      · rfl
    · simp only [next, bare, List.map_cons, Work.expand_bare, Work.notices_bare, Option.map_some,
        List.map_append]
  · rfl

theorem popsNext_bare (m : Machine) : m.bare.popsNext = m.popsNext := by
  rw [popsNext, popsNext, bare, List.isEmpty_map]

theorem actionCount_bare (m : Machine) : m.bare.actionCount = m.actionCount := by
  rw [actionCount, actionCount, bare, Work.actionCountAll_map_bare]

end Machine

namespace Execution

/-- An execution of a bare machine. -/
def bare (e : Execution) : Execution := { e with machine := e.machine.bare }

/-- A bare execution goes on as it did, and stays bare. -/
theorem step_bare (e : Execution) (cancelled patient : Bool) (now : Nat) :
    e.bare.step cancelled patient now =
      ((e.step cancelled patient now).1.bare, (e.step cancelled patient now).2) := by
  have hnext : e.bare.machine.next =
      e.machine.next.map fun taken => (taken.1, taken.2.1, taken.2.2.bare) :=
    e.machine.next_bare
  rw [step, step, hnext]
  cases e.machine.next with
  | none => rfl
  | some taken =>
    rcases taken with ⟨a | a, notices, m⟩
    · cases cancelled <;> rfl
    · cases cancelled <;> cases patient <;> rfl

end Execution

/-! ## Traces and simulations -/

namespace Trace

/-- A trace of a bare execution. -/
def bare (t : Trace) : Trace := { t with execution := t.execution.bare }

theorem step_bare (m : Moment) (t : Trace) : t.bare.step m = (t.step m).bare := by
  have hdeadline : t.bare.execution.deadline = t.execution.deadline := rfl
  rw [step, step, hdeadline]
  cases t.execution.deadline with
  | some deadline =>
    by_cases hstop : (m.cancelled && !m.patient) = true
    · simp only [hstop]
      rfl
    · simp only [hstop]
      rfl
  | none =>
    rcases htaken : t.execution.step m.cancelled m.patient m.now with ⟨e, line, notices⟩
    have hstep : t.bare.execution.step m.cancelled m.patient m.now = (e.bare, line, notices) := by
      rw [bare, Execution.step_bare, htaken]
    have hpops : t.bare.execution.machine.popsNext = t.execution.machine.popsNext :=
      t.execution.machine.popsNext_bare
    simp only [hstep, hpops]
    rfl

theorem run_bare (world : Nat → Moment) (n : Nat) (t : Trace) :
    t.bare.run world n = (t.run world n).bare := by
  induction n generalizing world t with
  | zero => rfl
  | succ n ih =>
    rw [run, run, step_bare, ih]
    have houtcome : t.bare.execution.outcome = t.execution.outcome := rfl
    rw [houtcome]
    split <;> rfl

theorem start_bare (w : Workflow) (d : Delays) : start w.bare d = (start w d).bare := by
  rw [start, Execution.start, Machine.start_bare]
  rfl

end Trace

namespace Simulation

/-- A simulation of a bare execution. -/
def bare (s : Simulation) : Simulation := { s with execution := s.execution.bare }

theorem step_bare (c : Cancellation) (s : Simulation) : s.bare.step c = (s.step c).bare := by
  have hdeadline : s.bare.execution.deadline = s.execution.deadline := rfl
  rw [step, step, hdeadline]
  cases s.execution.deadline with
  | some deadline =>
    have hsleeps : s.bare.sleeps = s.sleeps := rfl
    simp only [hsleeps]
    split <;> rfl
  | none =>
    have hbare (cancelled : Bool) := s.execution.step_bare cancelled false s.clock
    simp only [bare, hbare]
    rfl

theorem run_bare (c : Cancellation) (n : Nat) (s : Simulation) :
    s.bare.run c n = (s.run c n).bare := by
  induction n generalizing s with
  | zero => rfl
  | succ n ih =>
    have houtcome : s.bare.execution.outcome = s.execution.outcome := rfl
    rw [run, run, step_bare, ih, houtcome]
    split <;> rfl

theorem ofWorkflow_bare (w : Workflow) (d : Delays) (c : Cancellation) (clock : Nat) :
    ofWorkflow w.bare d c clock = (ofWorkflow w d c clock).bare := by
  have hstart : Execution.start w.bare d = (Execution.start w d).bare := by
    rw [Execution.start, Machine.start_bare]
    rfl
  have hcount : (Execution.start w d).bare.machine.actionCount =
      (Execution.start w d).machine.actionCount :=
    Machine.actionCount_bare _
  rw [ofWorkflow, ofWorkflow, hstart, hcount, ← run_bare]
  rfl

end Simulation

/-! ## Alike workflows -/

namespace Workflow

/-- What is ignored about the steps of a workflow has no influence. Of two workflows that differ in
nothing else, as many steps are visited on as many levels; they are lowered to the same graph up to
identities, or fail with the same issues, and the same is noticed; a validation finds the same, but
for the steps that it says are ignored; and in every world, cancelled or not, a run appends the same
lines at the same times between the same pauses, and ends in the same way. -/
theorem ignored_data_has_no_influence {w w' : Workflow} (h : w.Alike w') :
    w'.stepCount = w.stepCount ∧ w'.depth = w.depth ∧
      (∀ policy ids ids',
        (w'.lower policy ids').outcome = (w.lower policy ids).outcome.map (·.identify ids') ∧
        (w'.lower policy ids').notices = (w.lower policy ids).notices) ∧
      (∀ limits policy,
        (w'.validate limits policy).filter (fun i => i.code ≠ "W003") =
          (w.validate limits policy).filter fun i => i.code ≠ "W003") ∧
      (∀ d world n,
        let t := (Trace.start w d).run world n
        let t' := (Trace.start w' d).run world n
        t'.log = t.log ∧ t'.actions = t.actions ∧ t'.notices = t.notices ∧
          t'.execution.outcome = t.execution.outcome) ∧
      ∀ d c clock,
        let s := Simulation.ofWorkflow w d c clock
        let s' := Simulation.ofWorkflow w' d c clock
        s'.log = s.log ∧ s'.sleeps = s.sleeps ∧ s'.notices = s.notices ∧
          s'.outcome = s.outcome := by
  have hbare : w'.bare = w.bare := (alike_iff.mp h).symm
  refine ⟨?_, ?_, fun policy ids ids' => ?_, fun limits policy => ?_, fun d world n => ?_,
    fun d c clock => ?_⟩
  · rw [← stepCount_bare, hbare, stepCount_bare]
  · rw [← depth_bare, hbare, depth_bare]
  · have hlower : w'.lower policy ids' = w.lower policy ids' := by
      rw [← lower_bare, hbare, lower_bare]
    rw [hlower]
    exact ⟨lower_identify w policy ids ids', notices_lower w policy ids ids'⟩
  · rw [← validate_bare, hbare, validate_bare]
  · have hrun : ((Trace.start w' d).run world n).bare = ((Trace.start w d).run world n).bare := by
      rw [← Trace.run_bare, ← Trace.run_bare, ← Trace.start_bare, ← Trace.start_bare, hbare]
    obtain ⟨hexecution, hlog, hactions, hnotices, -⟩ := Trace.mk.inj hrun
    obtain ⟨-, -, -, houtcome⟩ := Execution.mk.inj hexecution
    exact ⟨hlog, hactions, hnotices, houtcome⟩
  · have hrun : (Simulation.ofWorkflow w' d c clock).bare =
        (Simulation.ofWorkflow w d c clock).bare := by
      rw [← Simulation.ofWorkflow_bare, ← Simulation.ofWorkflow_bare, hbare]
    obtain ⟨hexecution, -, hsleeps, hlog, hnotices⟩ := Simulation.mk.inj hrun
    obtain ⟨-, hemitted, -, houtcome⟩ := Execution.mk.inj hexecution
    refine ⟨hlog, hsleeps, hnotices, ?_⟩
    have hemitted : (Simulation.ofWorkflow w' d c clock).execution.emitted =
        (Simulation.ofWorkflow w d c clock).execution.emitted := hemitted
    have houtcome : (Simulation.ofWorkflow w' d c clock).execution.outcome =
        (Simulation.ofWorkflow w d c clock).execution.outcome := houtcome
    rw [Simulation.outcome, Simulation.outcome, hemitted, houtcome]

/-- An email with and without an identity and a step below it, in a container that is visited. -/
theorem ignored_data_has_no_influence_email :
    let w : Workflow := {
      steps := [{ kind := .subWorkflow, steps := [
        { id := some "7", kind := .email, steps := [{ kind := .other "vanish" }] }] }] }
    let w' : Workflow := { steps := [{ kind := .subWorkflow, steps := [{ kind := .email }] }] }
    w.Alike w' ∧ w'.depth = w.depth ∧ w.lint ≠ w'.lint := by
  intro w w'
  have halike : w.Alike w' := by
    simp [w, w', Alike, Step.AllAlike, Step.Alike]
  refine ⟨halike, (ignored_data_has_no_influence halike).2.1, ?_⟩
  decide

end Workflow

end Flowline
