import Flowline.Proofs.Run.Completion
import Flowline.Proofs.Run.Progress

/-!
# Cancelled runs

A run may be cancelled at any step. Until then it is the run that nobody cancels, and from then on
it appends nothing, so what it has appended is a prefix of the transcript; its outcome tells how
long the prefix is, and whether it is all of it. Which of the two is seen first, when a pause ends
at the moment of a cancellation, makes no difference to the log and the outcome.
-/

namespace Flowline

namespace Trace

/-! ## Runs in pieces -/

theorem run_add (world : Nat → Moment) (m n : Nat) (t : Trace) :
    t.run world (m + n) = (t.run world m).run (fun i => world (i + m)) n := by
  induction m generalizing world t with
  | zero => rw [Nat.zero_add, run]; rfl
  | succ m ih =>
    cases houtcome : t.execution.outcome with
    | some o =>
      have hended := Option.isSome_of_eq_some houtcome
      rw [run_of_ended hended, run_of_ended hended, run_of_ended hended]
    | none =>
      rw [Nat.add_right_comm, run_succ houtcome, run_succ houtcome, ih]
      rfl

/-- A run depends only on the moments it sees. -/
theorem run_congr {world world' : Nat → Moment} {n : Nat} (h : ∀ i, i < n → world i = world' i)
    (t : Trace) : t.run world n = t.run world' n := by
  induction n generalizing world world' t with
  | zero => rfl
  | succ n ih =>
    cases houtcome : t.execution.outcome with
    | some o =>
      have hended := Option.isSome_of_eq_some houtcome
      rw [run_of_ended hended, run_of_ended hended]
    | none =>
      rw [run_succ houtcome, run_succ houtcome, h 0 (Nat.zero_lt_succ n)]
      apply ih
      intro i hi
      exact h (i + 1) (Nat.succ_lt_succ hi)

/-- What every step keeps, a run keeps. -/
theorem run_preserves {P : Trace → Prop} {world : Nat → Moment} {n : Nat}
    (hstep : ∀ i t, t.execution.outcome = none → P t → P (t.step (world i))) {t : Trace} (h : P t) :
    P (t.run world n) := by
  induction n generalizing world t with
  | zero => exact h
  | succ n ih =>
    cases houtcome : t.execution.outcome with
    | some o =>
      rw [run_of_ended (Option.isSome_of_eq_some houtcome)]
      exact h
    | none =>
      rw [run_succ houtcome]
      apply ih
      · intro i t' houtcome' h'
        exact hstep (i + 1) t' houtcome' h'
      · exact hstep 0 t houtcome h

/-! ## Steps -/

/-- A step of a trace is a step of its execution, and appends the line of that step. -/
theorem steps_step (m : Moment) (t : Trace) :
    ∃ line, t.execution.Steps m.cancelled (t.step m).execution line ∧
      (t.step m).log = t.log ++ (line.map fun l => l.entry m.time).toList := by
  unfold step
  cases hdeadline : t.execution.deadline with
  | some deadline =>
    have hasleep := Option.isSome_of_eq_some hdeadline
    refine ⟨none, ?_, (List.append_nil t.log).symm⟩
    cases hcancelled : m.cancelled with
    | false => exact .wake hasleep
    | true =>
      cases m.patient with
      | true => exact .wake hasleep
      | false => exact .interrupt hasleep
  | none => exact ⟨_, Execution.steps_step hdeadline m.cancelled m.patient m.now, rfl⟩

theorem lines_append_entry (log : List Entry) (line : Option Line) (time : String) :
    (log ++ (line.map fun l => l.entry time).toList).map Entry.line =
      log.map Entry.line ++ line.toList := by
  rw [List.map_append]
  cases line <;> rfl

theorem runs (world : Nat → Moment) (n : Nat) (t : Trace) :
    Execution.Runs n t.execution t.lines (t.run world n).execution (t.run world n).lines := by
  induction n generalizing world t with
  | zero => exact .zero _ _
  | succ n ih =>
    cases houtcome : t.execution.outcome with
    | some o =>
      have hended := Option.isSome_of_eq_some houtcome
      rw [run_of_ended hended]
      exact .ended hended
    | none =>
      obtain ⟨line, hstep, hlog⟩ := steps_step (world 0) t
      have hlines : (t.step (world 0)).lines = t.lines ++ line.toList := by
        unfold lines
        rw [hlog, lines_append_entry]
      have hrest := ih (fun i => world (i + 1)) (t.step (world 0))
      rw [hlines] at hrest
      rw [run_succ houtcome]
      exact .step houtcome hstep hrest

theorem ended_run (world : Nat → Moment) {n : Nat} {t : Trace} (h : t.execution.stepsLeft ≤ n) :
    (t.run world n).execution.outcome.isSome :=
  (t.runs world n).isSome_outcome h

/-! ## Before and after a cancellation -/

/-- A world in which a cancellation is not taken back. -/
def Lasting (world : Nat → Moment) : Prop :=
  ∀ i, (world i).cancelled = true → (world (i + 1)).cancelled = true

theorem Lasting.later {world : Nat → Moment} (h : Lasting world) (steps : Nat) :
    Lasting fun i => world (i + steps) := by
  intro i hi
  have hnext := h (i + steps) hi
  rwa [Nat.add_right_comm] at hnext

theorem Lasting.of_zero {world : Nat → Moment} (h : Lasting world)
    (hcancelled : (world 0).cancelled = true) (i : Nat) : (world i).cancelled = true := by
  induction i with
  | zero => exact hcancelled
  | succ i ih => exact h i ih

theorem log_step_of_cancelled {m : Moment} (h : m.cancelled = true) (t : Trace) :
    (t.step m).log = t.log := by
  obtain ⟨line, hstep, hlog⟩ := steps_step m t
  rw [h] at hstep
  obtain rfl := hstep.line_of_cancelled
  rw [hlog]
  exact List.append_nil t.log

/-- Nothing is appended in a world in which the run has been cancelled. -/
theorem log_run_of_cancelled {world : Nat → Moment} (h : ∀ i, (world i).cancelled = true) (n : Nat)
    (t : Trace) : (t.run world n).log = t.log := by
  apply run_preserves (P := fun t' => t'.log = t.log) ?_ rfl
  intro i t' houtcome h'
  rw [log_step_of_cancelled (h i), h']

/-- From the moment of a cancellation on, the log stays as it is. -/
theorem log_run_eq {world : Nat → Moment} (h : Lasting world) {i n : Nat} (hi : i ≤ n)
    (hcancelled : (world i).cancelled = true) (t : Trace) :
    (t.run world n).log = (t.run world i).log := by
  obtain ⟨rest, rfl⟩ := Nat.exists_eq_add_of_le hi
  have hlater := (h.later i).of_zero (by rwa [Nat.zero_add])
  rw [run_add, log_run_of_cancelled hlater]

/-- Until it is cancelled, a run is the run that nobody cancels. -/
theorem run_until_cancelled {world : Nat → Moment} {n : Nat}
    (h : ∀ i, i < n → (world i).cancelled = false) (t : Trace) :
    t.run world n = t.run (fun i => { world i with cancelled := false }) n := by
  apply run_congr
  intro i hi
  rw [← h i hi]

/-! ## Patience -/

theorem step_of_not_cancelled {m : Moment} (h : m.cancelled = false) (patient : Bool) (t : Trace) :
    t.step { m with patient } = t.step m := by
  unfold step
  cases hdeadline : t.execution.deadline with
  | some deadline =>
    simp only [h, Bool.false_and]
  | none =>
    have hstep : t.execution.step m.cancelled patient m.now =
        t.execution.step m.cancelled m.patient m.now := by
      unfold Execution.step
      rw [h]
      rfl
    simp only [hstep]

/-- The log does not depend on what is seen first. -/
theorem log_run_patient {world : Nat → Moment} (h : Lasting world) (patience : Nat → Bool) (n : Nat)
    (t : Trace) :
    (t.run (fun i => { world i with patient := patience i }) n).log = (t.run world n).log := by
  induction n generalizing world patience t with
  | zero => rfl
  | succ n ih =>
    cases hcancelled : (world 0).cancelled with
    | true =>
      -- From here on, neither run appends anything.
      have hall := h.of_zero hcancelled
      have hpatient :
          (t.run (fun i => { world i with patient := patience i }) (n + 1)).log = t.log := by
        apply log_run_of_cancelled
        exact hall
      rw [hpatient, log_run_of_cancelled hall]
    | false =>
      cases houtcome : t.execution.outcome with
      | some o =>
        have hended := Option.isSome_of_eq_some houtcome
        rw [run_of_ended hended, run_of_ended hended]
      | none =>
        rw [run_succ houtcome, run_succ houtcome, step_of_not_cancelled hcancelled]
        exact ih (h.later 1) (fun i => patience (i + 1)) _

end Trace

namespace Simulation

/-! ## The simulation -/

/-- A step of a simulation is a step of its execution too, whenever that is cancelled. -/
theorem steps_step (c : Cancellation) (s : Simulation) :
    ∃ cancelled line, s.execution.Steps cancelled (s.step c).execution line ∧
      (s.step c).log = s.log ++ (line.map fun l => l.entry (timeOfDay s.clock)).toList := by
  unfold step
  cases hdeadline : s.execution.deadline with
  | some deadline =>
    have hasleep := Option.isSome_of_eq_some hdeadline
    simp only
    split
    · exact ⟨true, none, .interrupt hasleep, (List.append_nil s.log).symm⟩
    · exact ⟨false, none, .wake hasleep, (List.append_nil s.log).symm⟩
  | none => exact ⟨_, _, Execution.steps_step hdeadline _ false s.clock, rfl⟩

theorem runs (c : Cancellation) (n : Nat) (s : Simulation) :
    Execution.Runs n s.execution (s.log.map Entry.line) (s.run c n).execution
      ((s.run c n).log.map Entry.line) := by
  induction n generalizing s with
  | zero => exact .zero _ _
  | succ n ih =>
    cases houtcome : s.execution.outcome with
    | some o =>
      rw [run, houtcome]
      exact .ended (Option.isSome_of_eq_some houtcome)
    | none =>
      obtain ⟨cancelled, line, hstep, hlog⟩ := steps_step c s
      have hrest := ih (s.step c)
      rw [hlog, Trace.lines_append_entry] at hrest
      rw [run, houtcome]
      exact .step houtcome hstep hrest

end Simulation

namespace Workflow

theorem linesOf_script (w : Workflow) (d : Delays) : linesOf (w.script d) = w.transcript :=
  lines_script w d

/-- An execution that has come to its end has said a prefix of the transcript, and its outcome tells
how long the prefix is and whether it is all of it. -/
theorem ends_of_runs {w : Workflow} {d : Delays} {n : Nat} {e : Execution} {said : List Line}
    (h : Execution.Runs n (.start w d) [] e said) (hn : (Execution.start w d).stepsLeft ≤ n) :
    said <+: w.transcript ∧ e.outcome = some (.ofCount (2 * w.stepCount + 3) said.length) := by
  have hfollows := h.follows (endsInLine_script w d) (Execution.follows_start w d)
  obtain ⟨o, ho⟩ := Option.isSome_iff_exists.mp (h.isSome_outcome hn)
  obtain ⟨hbegins, hcount⟩ := hfollows.ended o ho
  rw [linesOf_script] at hbegins hcount
  rw [length_transcript] at hcount
  exact ⟨hbegins, by rw [ho, hcount]⟩

theorem ends_run (w : Workflow) (d : Delays) (world : Nat → Moment) {n : Nat}
    (hn : (Execution.start w d).stepsLeft ≤ n) :
    let t := (Trace.start w d).run world n
    t.lines <+: w.transcript ∧
      t.execution.outcome = some (.ofCount (2 * w.stepCount + 3) t.log.length) := by
  intro t
  have hlength : t.lines.length = t.log.length := List.length_map _
  rw [← hlength]
  exact ends_of_runs ((Trace.start w d).runs world n) hn

theorem ends_simulation (w : Workflow) (d : Delays) (c : Cancellation) (clock : Nat) :
    let s := Simulation.ofWorkflow w d c clock
    s.log.map Entry.line <+: w.transcript ∧
      s.outcome = .ofCount (2 * w.stepCount + 3) s.log.length := by
  intro s
  have hruns : Execution.Runs (Execution.start w d).stepsLeft (.start w d) [] s.execution
      (s.log.map Entry.line) := Simulation.runs c _ { execution := .start w d, clock := clock }
  obtain ⟨hbegins, houtcome⟩ := ends_of_runs hruns (Nat.le_refl _)
  refine ⟨hbegins, ?_⟩
  rw [Simulation.outcome, houtcome, List.length_map]
  rfl

/-- A run that may be cancelled at any step, and stays so, ends in every world. It has then appended
a prefix of the transcript, and has completed just if it has appended all of it. It has done what
the run that nobody cancels has done until the cancellation, and has appended nothing after it. Its
log and its outcome do not depend on what is seen first when a pause ends at the moment of the
cancellation. The simulation ends in the same way, whenever it is cancelled. -/
theorem cancelled_run_truncates (w : Workflow) (d : Delays) (world : Nat → Moment)
    (hlasting : ∀ i, (world i).cancelled = true → (world (i + 1)).cancelled = true) :
    (∃ steps, ∀ n, steps ≤ n →
      let t := (Trace.start w d).run world n
      t.lines <+: w.transcript ∧
        t.execution.outcome = some (
          if t.log.length = 2 * w.stepCount + 3 then .completed t.log.length
          else .cancelled t.log.length) ∧
        (∀ i, (world i).cancelled = true → t.log = ((Trace.start w d).run world i).log) ∧
        ∀ patience : Nat → Bool,
          let t' := (Trace.start w d).run (fun i => { world i with patient := patience i }) n
          t'.log = t.log ∧ t'.execution.outcome = t.execution.outcome) ∧
    (∀ i, (∀ j, j < i → (world j).cancelled = false) →
      (Trace.start w d).run world i =
        (Trace.start w d).run (fun j => { world j with cancelled := false }) i) ∧
    ∀ c clock,
      let s := Simulation.ofWorkflow w d c clock
      s.log.map Entry.line <+: w.transcript ∧
        s.outcome = if s.log.length = 2 * w.stepCount + 3 then .completed s.log.length
          else .cancelled s.log.length := by
  refine ⟨⟨(Execution.start w d).stepsLeft, ?_⟩, ?_, ends_simulation w d⟩
  · intro n hn t
    obtain ⟨hbegins, houtcome⟩ := ends_run w d world hn
    refine ⟨hbegins, houtcome, ?_, ?_⟩
    · intro i hi
      -- A run has come to its end after so many steps, so a later cancellation changes nothing.
      rcases Nat.le_total i n with hle | hle
      · exact Trace.log_run_eq hlasting hle hi _
      · obtain ⟨rest, rfl⟩ := Nat.exists_eq_add_of_le hle
        rw [Trace.run_add, Trace.run_of_ended (Trace.ended_run world hn)]
    · intro patience t'
      have hlog : t'.log = t.log := Trace.log_run_patient hlasting patience n _
      refine ⟨hlog, ?_⟩
      rw [(ends_run w d _ hn).2, houtcome]
      exact congrArg (fun log => some (Outcome.ofCount _ (List.length log))) hlog
  · intro i hi
    exact Trace.run_until_cancelled hi _

/-- A run that is cancelled while it sleeps between its first two lines, and sees its sleep end
before the cancellation. -/
theorem cancelled_run_truncates_asleep :
    let w : Workflow := {
      steps := [{ kind := .subWorkflow, steps := [{ kind := .email }] }] }
    let world : Nat → Moment := fun i => { now := i, cancelled := decide (2 ≤ i), patient := true }
    (∀ i, (world i).cancelled = true → (world (i + 1)).cancelled = true) ∧
      ∃ n, ((Trace.start w {}).run world n).execution.outcome = some (.cancelled 1) ∧
        ((Trace.start w {}).run (fun i => { world i with patient := false }) n).execution.outcome =
          some (.cancelled 1) := by
  intro w world
  have hlasting (i : Nat) (hi : (world i).cancelled = true) :
      (world (i + 1)).cancelled = true := by
    have hle : 2 ≤ i := of_decide_eq_true hi
    exact decide_eq_true (Nat.le_succ_of_le hle)
  obtain ⟨steps, h⟩ := (cancelled_run_truncates w {} world hlasting).1
  obtain ⟨-, houtcome, hlog, hpatience⟩ := h steps (Nat.le_refl steps)
  have hcancelled : ((Trace.start w {}).run world steps).execution.outcome =
      some (.cancelled 1) := by
    rw [houtcome, hlog 2 rfl]
    rfl
  exact ⟨hlasting, steps, hcancelled, (hpatience fun _ => false).2.trans hcancelled⟩

end Workflow

end Flowline
