import Mathlib.Data.Rat.Cast.Order
import Flowline.Proofs.Run.Truncation

/-!
# The timetable of a run

If a sleep lasts exactly as long as it was asked for, and nothing else takes any time, then the
lines of a run have fixed times. `schedule` finds them by going through a script;
`Workflow.timetable` gives them in closed form, where a line of a step stands behind one delay for
each step that was closed before it. A run on such a clock keeps its timetable: at any time at which
no line is due, it has appended just the lines that were due before.
-/

namespace Flowline

/-! ## Schedules -/

/-- The lines of a script that begins at a time, each with the time at which it is due. -/
def schedule (now : Nat) : List Action → List (Nat × Line)
  | [] => []
  | .say line :: script => (now, line) :: schedule now script
  | .pause ms :: script => schedule (now + ms) script

/-- When a script is over that begins at a time. -/
def scheduleEnd (now : Nat) (script : List Action) : Nat :=
  now + (script.filterMap Action.pause?).sum

theorem schedule_append (now : Nat) (front rest : List Action) :
    schedule now (front ++ rest) =
      schedule now front ++ schedule (scheduleEnd now front) rest := by
  induction front generalizing now with
  | nil => rfl
  | cons a front ih =>
    cases a with
    | say line =>
      rw [List.cons_append, schedule, schedule, ih]
      rfl
    | pause ms =>
      have hend : scheduleEnd now (.pause ms :: front) = scheduleEnd (now + ms) front := by
        rw [scheduleEnd, scheduleEnd, List.filterMap_cons, Action.pause?, List.sum_cons,
          Nat.add_assoc]
      rw [List.cons_append, schedule, schedule, ih, hend]

/-- A script that begins later is the same so much later. -/
theorem schedule_add (start now : Nat) (script : List Action) :
    schedule (start + now) script = (schedule now script).map fun x => (start + x.1, x.2) := by
  induction script generalizing now with
  | nil => rfl
  | cons a script ih =>
    cases a with
    | say line => rw [schedule, schedule, ih, List.map_cons]
    | pause ms => rw [schedule, schedule, Nat.add_assoc, ih]

theorem le_of_mem_schedule {now : Nat} {script : List Action} {x : Nat × Line}
    (h : x ∈ schedule now script) : now ≤ x.1 := by
  induction script generalizing now with
  | nil => cases h
  | cons a script ih =>
    cases a with
    | say line =>
      rcases List.mem_cons.mp h with rfl | hlater
      · exact Nat.le_refl now
      · exact ih hlater
    | pause ms => exact Nat.le_of_add_right_le (ih h)

theorem lines_schedule (now : Nat) (script : List Action) :
    (schedule now script).map Prod.snd = linesOf script := by
  induction script generalizing now with
  | nil => rfl
  | cons a script ih =>
    cases a with
    | say line =>
      rw [schedule, List.map_cons, ih]
      rfl
    | pause ms => exact ih (now + ms)

/-! ## Closing lines -/

/-- Whether a line says that something has succeeded. Of the lines of a step, it is the last. -/
def Line.closes (l : Line) : Bool := l.status = .success

/-- Lines from a time on, with a delay behind every one that closes a step. -/
def timed (now delay : Nat) : List Line → List (Nat × Line)
  | [] => []
  | l :: ls => (now, l) :: timed (if l.closes then now + delay else now) delay ls

theorem clock_cons (now delay : Nat) (l : Line) (ls : List Line) :
    (if l.closes then now + delay else now) + delay * ls.countP Line.closes =
      now + delay * (l :: ls).countP Line.closes := by
  cases hcloses : l.closes with
  | false => rw [List.countP_cons_of_neg (ne_true_of_eq_false hcloses), if_neg Bool.false_ne_true]
  | true =>
    rw [List.countP_cons_of_pos hcloses, if_pos rfl, Nat.mul_succ]
    omega

theorem timed_append (now delay : Nat) (ls ls' : List Line) :
    timed now delay (ls ++ ls') =
      timed now delay ls ++ timed (now + delay * ls.countP Line.closes) delay ls' := by
  induction ls generalizing now with
  | nil => rfl
  | cons l ls ih => rw [List.cons_append, timed, timed, ih, clock_cons, List.cons_append]

/-- So every line stands behind one delay for each step that was closed before. -/
theorem timed_eq (now delay : Nat) (ls : List Line) :
    timed now delay ls =
      ls.mapIdx fun k l => (now + delay * (ls.take k).countP Line.closes, l) := by
  induction ls generalizing now with
  | nil => rfl
  | cons l ls ih =>
    rw [timed, ih, List.mapIdx_cons]
    simp only [List.take_zero, List.countP_nil, Nat.mul_zero, Nat.add_zero, List.take_succ_cons,
      clock_cons]

namespace Step

theorem countP_transcriptAll (level index : Nat) (ss : List Step) :
    (transcriptAll level index ss).countP Line.closes = countAll ss := by
  induction ss using siblings_induction generalizing level index with
  | nil => rfl
  | cons s ss below rest =>
    have hopening : (Line.atLevel level .info (s.lines index).opening).closes = false := rfl
    have hclosing : (Line.atLevel level .success (s.lines index).closing).closes = true := rfl
    rw [transcriptAll, transcript_eq, countAll_cons, List.countP_append, List.countP_cons,
      List.countP_append, List.countP_singleton, hopening, hclosing, below, rest]
    simp
    omega

theorem scheduleEnd_scriptAll (now delay level index : Nat) (ss : List Step) :
    scheduleEnd now (scriptAll delay level index ss) = now + delay * countAll ss := by
  rw [scheduleEnd, pauses_scriptAll, List.sum_replicate_nat, Nat.mul_comm]

/-- The schedule of siblings: the steps below a container are timed in their place, and the
container is closed behind them. -/
theorem schedule_scriptAll (now delay level index : Nat) (ss : List Step) :
    schedule now (scriptAll delay level index ss) =
      timed now delay (transcriptAll level index ss) := by
  induction ss using siblings_induction generalizing now level index with
  | nil => rfl
  | cons s ss below rest =>
    let opening : Line := .atLevel level .info (s.lines index).opening
    let closing : Line := .atLevel level .success (s.lines index).closing
    have hscript : scriptAll delay level index (s :: ss) =
        .say opening :: (scriptAll delay (level + 1) 0 s.children ++
          .say closing :: .pause delay :: scriptAll delay level (index + 1) ss) := by
      simp [scriptAll, script_eq, opening, closing]
    have htranscript : transcriptAll level index (s :: ss) =
        opening :: (transcriptAll (level + 1) 0 s.children ++
          closing :: transcriptAll level (index + 1) ss) := by
      simp [transcriptAll, transcript_eq, opening, closing]
    have hopening : opening.closes = false := rfl
    have hclosing : closing.closes = true := rfl
    rw [hscript, htranscript, schedule, schedule_append, below, scheduleEnd_scriptAll, schedule,
      schedule, rest, timed, hopening, if_neg Bool.false_ne_true, timed_append,
      countP_transcriptAll, timed, hclosing, if_pos rfl]

end Step

namespace Workflow

/-- When the last line of a run is due that begins at time zero. -/
def endTime (w : Workflow) (d : Delays) : Nat := d.trigger + d.step * w.stepCount + d.finish

/-- The lines of a run that begins at time zero, each with the time at which it is due: the start
line at once, the line of the trigger behind the first delay, every line of a step behind one more
delay for each step that was closed before it, and the last line behind the delays of all steps and
the last delay. -/
def timetable (w : Workflow) (d : Delays) : List (Nat × Line) :=
  let steps := Step.transcriptAll 0 0 w.steps
  [(0, ⟨.success, "Starting workflow: " ++ w.displayName⟩),
    (d.trigger, ⟨.info, "Trigger activated: " ++ w.activation⟩)] ++
  (steps.mapIdx fun k line => (d.trigger + d.step * (steps.take k).countP Line.closes, line)) ++
  [(w.endTime d, ⟨.success, "Workflow completed successfully!"⟩)]

theorem schedule_script (w : Workflow) (d : Delays) : schedule 0 (w.script d) = w.timetable d := by
  rw [script_eq, triggerLine_eq, schedule, schedule, schedule, Nat.zero_add, schedule_append,
    Step.schedule_scriptAll, Step.scheduleEnd_scriptAll, timed_eq]
  rfl

theorem lines_timetable (w : Workflow) (d : Delays) :
    (w.timetable d).map Prod.snd = w.transcript := by
  rw [← schedule_script, lines_schedule, linesOf_script]

theorem length_timetable (w : Workflow) (d : Delays) :
    (w.timetable d).length = 2 * w.stepCount + 3 := by
  rw [← length_transcript, ← w.lines_timetable d, List.length_map]

end Workflow

/-! ## Clocks that keep time -/

namespace Trace

/-- What the clock showed when the step before another one was taken. -/
def clockBefore (start : Nat) (world : Nat → Moment) : Nat → Nat
  | 0 => start
  | n + 1 => (world n).now

/-- A clock on which a run begins at a time and nothing takes time but sleeps, which last exactly
until their deadlines. What it shows is stamped on the entries. -/
structure OnTime (stamp : Nat → String) (start : Nat) (world : Nat → Moment) (t : Trace) : Prop
    where
  now : ∀ n, (t.run world n).execution.outcome = none →
    (world n).now = (t.run world n).execution.deadline.getD (clockBefore start world n)
  time : ∀ n, (t.run world n).execution.outcome = none → (world n).time = stamp (world n).now

/-- A trace that has said some lines of a schedule at their times and has the others left, when its
clock shows a time. -/
structure Keeps (stamp : Nat → String) (all said : List (Nat × Line)) (now : Nat) (t : Trace) :
    Prop where
  log : t.log = said.map fun x => x.2.entry (stamp x.1)
  left : said ++ schedule (t.execution.deadline.getD now) t.execution.machine.script = all
  ended : t.execution.outcome.isSome → t.execution.machine.script = []

section Keeps

variable {stamp : Nat → String} {all said : List (Nat × Line)} {now : Nat} {t : Trace}

/-- Every step says what is due at its time, if anything. -/
theorem Keeps.step (h : t.Keeps stamp all said now) (houtcome : t.execution.outcome = none)
    {m : Moment} (hcancelled : m.cancelled = false)
    (hnow : m.now = t.execution.deadline.getD now) (htime : m.time = stamp m.now) :
    ∃ lines, (t.step m).Keeps stamp all (said ++ lines) m.now ∧ ∀ x ∈ lines, x.1 = m.now := by
  have hgoes {P : Prop} (hended : t.execution.outcome.isSome) : P := by
    rw [houtcome] at hended
    cases hended
  have hleft := h.left
  cases hdeadline : t.execution.deadline with
  | some deadline =>
    rw [hdeadline, Option.getD_some] at hnow hleft
    refine ⟨[], ?_, nofun⟩
    rw [List.append_nil, step_wake hcancelled (Option.isSome_of_eq_some hdeadline)]
    refine ⟨h.log, ?_, hgoes⟩
    rw [hnow]
    exact hleft
  | none =>
    rw [hdeadline, Option.getD_none] at hnow hleft
    cases hnext : t.execution.machine.next with
    | none =>
      have hscript := (Machine.next_eq_none hnext).1
      refine ⟨[], ?_, nofun⟩
      rw [List.append_nil, step_end hdeadline hnext]
      refine ⟨h.log, ?_, fun _ => hscript⟩
      simp only [hscript] at hleft ⊢
      exact hleft
    | some next =>
      obtain ⟨a, notices, machine⟩ := next
      have hscript := (Machine.script_next hnext).1
      rw [hscript, ← hnow] at hleft
      cases a with
      | say line =>
        refine ⟨[(m.now, line)], ?_, ?_⟩
        · rw [step_say hcancelled hdeadline hnext]
          refine ⟨?_, ?_, hgoes⟩
          · rw [List.map_append, ← h.log, htime]
            rfl
          · simp only [hdeadline, Option.getD_none]
            rw [List.append_assoc]
            exact hleft
        · intro x hx
          rw [List.mem_singleton.mp hx]
      | pause ms =>
        refine ⟨[], ?_, nofun⟩
        rw [List.append_nil, step_pause hcancelled hdeadline hnext]
        exact ⟨h.log, hleft, hgoes⟩

end Keeps

theorem run_succ_last {world : Nat → Moment} {n : Nat} {t : Trace}
    (h : (t.run world n).execution.outcome = none) :
    t.run world (n + 1) = (t.run world n).step (world n) := by
  rw [run_add, run_succ h, Nat.zero_add]
  rfl

section OnTime

variable {stamp : Nat → String} {start : Nat} {world : Nat → Moment} {t : Trace}

/-- On a clock that keeps time, a run that nobody cancels says every line when it is due. -/
theorem OnTime.keeps (hclock : OnTime stamp start world t) (hworld : Undisturbed world)
    {all : List (Nat × Line)} (h : t.Keeps stamp all [] start) (n : Nat) :
    ∃ said, (t.run world n).Keeps stamp all said (clockBefore start world n) ∧
      ∀ x ∈ said, ∃ i, i < n ∧ x.1 = (world i).now := by
  induction n with
  | zero => exact ⟨[], h, nofun⟩
  | succ n ih =>
    obtain ⟨said, hkeeps, hpast⟩ := ih
    cases houtcome : (t.run world n).execution.outcome with
    | some o =>
      have hended := Option.isSome_of_eq_some houtcome
      have hscript := hkeeps.ended hended
      refine ⟨said, ?_, fun x hx => ?_⟩
      · rw [run_add, run_of_ended hended]
        refine ⟨hkeeps.log, ?_, hkeeps.ended⟩
        have hleft := hkeeps.left
        rw [hscript] at hleft ⊢
        exact hleft
      · obtain ⟨i, hi, hx⟩ := hpast x hx
        exact ⟨i, Nat.lt_succ_of_lt hi, hx⟩
    | none =>
      obtain ⟨lines, hkeeps', hnow⟩ :=
        hkeeps.step houtcome (hworld n) (hclock.now n houtcome) (hclock.time n houtcome)
      refine ⟨said ++ lines, ?_, fun x hx => ?_⟩
      · rw [run_succ_last houtcome]
        exact hkeeps'
      · rcases List.mem_append.mp hx with hbefore | hlast
        · obtain ⟨i, hi, hx⟩ := hpast x hbefore
          exact ⟨i, Nat.lt_succ_of_lt hi, hx⟩
        · exact ⟨n, Nat.lt_succ_self n, hnow x hlast⟩

end OnTime

/-! ## What is visible at a time -/

/-- The lines of a timetable that are due before a time. -/
def dueBefore (T : ℚ) (all : List (Nat × Line)) : List (Nat × Line) :=
  all.filter fun x => decide ((x.1 : ℚ) < T)

/-- Whether a run has taken so many steps at a time: none of them is taken later, and the next step
is not taken before. -/
def StandsAt (T : ℚ) (world : Nat → Moment) (t : Trace) (n : Nat) : Prop :=
  (∀ i, i < n → ((world i).now : ℚ) ≤ T) ∧
    ((t.run world n).execution.outcome = none → T ≤ (world n).now)

/-- At every time a run has taken some number of steps. -/
theorem exists_standsAt (T : ℚ) (world : Nat → Moment) (t : Trace) :
    ∃ n, StandsAt T world t n := by
  classical
  have hends : ∃ n, (t.run world n).execution.outcome.isSome ∨ T ≤ (world n).now :=
    ⟨_, .inl (t.ended_run world (Nat.le_refl _))⟩
  -- The first step that is not taken before the time is the next one.
  refine ⟨Nat.find hends, fun i hi => ?_, fun hgoes => ?_⟩
  · have hbefore := (not_or.mp (Nat.find_min hends hi)).2
    exact le_of_lt (not_le.mp hbefore)
  · rcases Nat.find_spec hends with hended | hnext
    · rw [hgoes] at hended
      cases hended
    · exact hnext

section StandsAt

variable {stamp : Nat → String} {start : Nat} {world : Nat → Moment} {t : Trace}
  {all : List (Nat × Line)} {T : ℚ} {n : Nat}

/-- At a time at which no line is due, the log holds the lines that were due before. -/
theorem log_of_standsAt (hclock : OnTime stamp start world t) (hworld : Undisturbed world)
    (h : t.Keeps stamp all [] start) (hT : ∀ x ∈ all, (x.1 : ℚ) ≠ T)
    (hn : StandsAt T world t n) :
    (t.run world n).log = (dueBefore T all).map fun x => x.2.entry (stamp x.1) := by
  obtain ⟨said, hkeeps, hpast⟩ := hclock.keeps hworld h n
  have hleft := hkeeps.left
  generalize hrest : schedule ((t.run world n).execution.deadline.getD (clockBefore start world n))
    (t.run world n).execution.machine.script = rest at hleft
  have hsaid : dueBefore T said = said := by
    refine List.filter_eq_self.mpr fun x hx => decide_eq_true ?_
    obtain ⟨i, hi, hnow⟩ := hpast x hx
    have hle : (x.1 : ℚ) ≤ T := by
      rw [hnow]
      exact hn.1 i hi
    have hmem : x ∈ all := hleft ▸ List.mem_append_left _ hx
    exact lt_of_le_of_ne hle (hT x hmem)
  have hnone : dueBefore T rest = [] := by
    refine List.filter_eq_nil_iff.mpr fun x hx => ?_
    rw [decide_eq_true_iff, not_lt]
    cases houtcome : (t.run world n).execution.outcome with
    | some o =>
      rw [hkeeps.ended (Option.isSome_of_eq_some houtcome)] at hrest
      subst hrest
      cases hx
    | none =>
      have hnext := hn.2 houtcome
      rw [hclock.now n houtcome] at hnext
      subst hrest
      exact le_trans hnext (Nat.cast_le.mpr (le_of_mem_schedule hx))
  rw [hkeeps.log, ← hleft, dueBefore, List.filter_append, ← dueBefore, ← dueBefore, hsaid, hnone,
    List.append_nil]

end StandsAt

/-! ## The clock that keeps time -/

/-- What a clock that keeps time shows at the next step. -/
def nextMoment (stamp : Nat → String) (now : Nat) (t : Trace) : Moment where
  now := t.execution.deadline.getD now
  time := stamp (t.execution.deadline.getD now)

/-- What it shows at every step from now on. -/
def punctual (stamp : Nat → String) (now : Nat) (t : Trace) : Nat → Moment
  | 0 => t.nextMoment stamp now
  | n + 1 => punctual stamp (t.nextMoment stamp now).now (t.step (t.nextMoment stamp now)) n

theorem undisturbed_punctual (stamp : Nat → String) (start : Nat) (t : Trace) :
    Undisturbed (punctual stamp start t) := by
  intro n
  induction n generalizing start t with
  | zero => rfl
  | succ n ih => exact ih _ _

theorem clockBefore_succ (start : Nat) (world : Nat → Moment) (n : Nat) :
    clockBefore start world (n + 1) = clockBefore (world 0).now (fun i => world (i + 1)) n := by
  cases n <;> rfl

theorem punctual_eq (stamp : Nat → String) (start : Nat) (t : Trace) {n : Nat}
    (h : (t.run (punctual stamp start t) n).execution.outcome = none) :
    punctual stamp start t n = (t.run (punctual stamp start t) n).nextMoment stamp
      (clockBefore start (punctual stamp start t) n) := by
  induction n generalizing start t with
  | zero => rfl
  | succ n ih =>
    cases houtcome : t.execution.outcome with
    | some o =>
      rw [run_of_ended (Option.isSome_of_eq_some houtcome), houtcome] at h
      cases h
    | none =>
      rw [run_succ houtcome] at h ⊢
      rw [clockBefore_succ]
      exact ih _ _ h

theorem onTime_punctual (stamp : Nat → String) (start : Nat) (t : Trace) :
    OnTime stamp start (punctual stamp start t) t := by
  constructor
  · intro n h
    rw [punctual_eq stamp start t h]
    rfl
  · intro n h
    rw [punctual_eq stamp start t h]
    rfl

end Trace

/-- The clock of a simulation keeps time. -/
theorem Simulation.shows_run_punctual {s : Simulation} {t : Trace} (h : s.Shows t) (n : Nat) :
    (s.run {} n).Shows (t.run (t.punctual timeOfDay s.clock) n) := by
  induction n generalizing s t with
  | zero => exact h
  | succ n ih =>
    have hstep : t.step (t.nextMoment timeOfDay s.clock) = t.step s.moment ∧
        (s.step {}).clock = (t.nextMoment timeOfDay s.clock).now := by
      unfold step Trace.nextMoment
      rw [h.execution]
      cases hdeadline : s.execution.deadline with
      | some deadline =>
        have hasleep : t.execution.deadline.isSome := by
          rw [h.execution, hdeadline]
          rfl
        rw [Trace.step_wake rfl hasleep, Trace.step_wake rfl hasleep]
        exact ⟨rfl, rfl⟩
      | none => exact ⟨rfl, rfl⟩
    have hshows := shows_step h
    rw [← hstep.1] at hshows
    have hrest := ih hshows
    rw [hstep.2] at hrest
    rw [run, Trace.run, h.execution]
    split
    · exact h
    · exact hrest

namespace Workflow

section Timetable

variable {w : Workflow} {d : Delays} {stamp : Nat → String} {world : Nat → Moment}

theorem keeps_start (w : Workflow) (d : Delays) (stamp : Nat → String) (start : Nat) :
    (Trace.start w d).Keeps stamp ((w.timetable d).map fun x => (start + x.1, x.2)) [] start := by
  refine ⟨rfl, ?_, nofun⟩
  rw [← schedule_script, ← schedule_add, ← Machine.script_start]
  rfl

/-- On a clock that keeps time, a run that has come to its end has said every line when it was
due. -/
theorem log_of_onTime {start n : Nat} (hclock : Trace.OnTime stamp start world (Trace.start w d))
    (hworld : Trace.Undisturbed world) (hn : (Execution.start w d).stepsLeft ≤ n) :
    ((Trace.start w d).run world n).log =
      (w.timetable d).map fun x => x.2.entry (stamp (start + x.1)) := by
  obtain ⟨said, hkeeps, -⟩ := hclock.keeps hworld (w.keeps_start d stamp start) n
  have hleft := hkeeps.left
  rw [hkeeps.ended (Trace.ended_run world hn), schedule, List.append_nil] at hleft
  rw [hkeeps.log, hleft, List.map_map]
  rfl

/-- So has the simulation that is not cancelled. -/
theorem log_simulation (w : Workflow) (d : Delays) (clock : Nat) :
    (Simulation.ofWorkflow w d {} clock).log =
      (w.timetable d).map fun x => x.2.entry (timeOfDay (clock + x.1)) := by
  have hshows := Simulation.shows_run_punctual (shows_start w d clock)
    (2 * (Execution.start w d).machine.actionCount + 1)
  rw [Simulation.ofWorkflow, ← hshows.log]
  exact log_of_onTime (Trace.onTime_punctual _ _ _) (Trace.undisturbed_punctual _ _ _)
    (Nat.le_refl _)

theorem length_dueBefore_lt {T : ℚ} (hT : T < w.endTime d) :
    (Trace.dueBefore T (w.timetable d)).length < 2 * w.stepCount + 3 := by
  rw [← w.length_timetable d, Trace.dueBefore, List.length_filter_lt_length_iff_exists]
  refine ⟨(w.endTime d, finalLine), ?_, ?_⟩
  · simp [timetable, finalLine]
  · rw [decide_eq_true_iff, not_lt]
    exact le_of_lt hT

/-- A run that is cancelled at a time at which no line is due, and before its end, has said the
lines that were due before, and says no other. -/
theorem cancelled_at {T : ℚ} {n : Nat} {log : List Entry} {world' : Nat → Moment}
    (hlog : ((Trace.start w d).run world n).log = log) (hT : T < w.endTime d)
    (hcount : log.length = (Trace.dueBefore T (w.timetable d)).length)
    (hsame : ∀ i, i < n → world' i = world i)
    (hcancelled : ∀ i, n ≤ i → (world' i).cancelled = true) {m : Nat}
    (hm : n + (Execution.start w d).stepsLeft ≤ m) :
    ((Trace.start w d).run world' m).execution.outcome = some (.cancelled log.length) ∧
      ((Trace.start w d).run world' m).log = log := by
  have hlog' : ((Trace.start w d).run world' m).log = log := by
    obtain ⟨rest, rfl⟩ := Nat.exists_eq_add_of_le (Nat.le_of_add_right_le hm)
    rw [Trace.run_add, Trace.log_run_of_cancelled fun i => hcancelled _ (Nat.le_add_left n i),
      Trace.run_congr hsame, hlog]
  have houtcome := (ends_run w d world' (Nat.le_of_add_left_le hm)).2
  have hless := length_dueBefore_lt hT
  rw [hlog', Outcome.ofCount, if_neg (by omega)] at houtcome
  exact ⟨houtcome, hlog'⟩

end Timetable

/-- A run keeps its timetable on a clock that begins at time zero, on which nothing takes time but
sleeps, and these take exactly as long as they should. It says every line when it is due. At any
time at which no line is due, whatever it does at that time besides, its log holds just the lines
that were due before; and if it is cancelled at such a time before its end, whatever the clock shows
then, it ends as cancelled with just these lines. The simulation that is not cancelled, which begins
at any time of the day, keeps the same timetable. -/
theorem run_keeps_timetable (w : Workflow) (d : Delays) (stamp : Nat → String)
    (world : Nat → Moment) (hworld : ∀ i, (world i).cancelled = false)
    (hclock : Trace.OnTime stamp 0 world (Trace.start w d)) :
    let t := Trace.start w d
    let entries (lines : List (Nat × Line)) := lines.map fun x => x.2.entry (stamp x.1)
    (∃ enough, ∀ n, enough ≤ n → (t.run world n).log = entries (w.timetable d)) ∧
    (∀ T : ℚ, (∀ x ∈ w.timetable d, (x.1 : ℚ) ≠ T) →
      let due := (w.timetable d).filter fun x => decide ((x.1 : ℚ) < T)
      (∃ n, Trace.StandsAt T world t n) ∧
      ∀ n, Trace.StandsAt T world t n →
        (t.run world n).log = entries due ∧
        (T < w.endTime d → ∀ world' : Nat → Moment, (∀ i, i < n → world' i = world i) →
          (∀ i, n ≤ i → (world' i).cancelled = true) →
          ∃ enough, ∀ m, enough ≤ m →
            (t.run world' m).execution.outcome = some (.cancelled due.length) ∧
              (t.run world' m).log = entries due)) ∧
    ∀ clock, (Simulation.ofWorkflow w d {} clock).log =
      (w.timetable d).map fun x => x.2.entry (timeOfDay (clock + x.1)) := by
  intro t entries
  refine ⟨⟨(Execution.start w d).stepsLeft, fun n hn => ?_⟩, ?_, w.log_simulation d⟩
  · rw [log_of_onTime hclock hworld hn]
    simp only [Nat.zero_add, entries]
  · intro T hT due
    refine ⟨Trace.exists_standsAt T world t, fun n hn => ?_⟩
    have hkeeps : t.Keeps stamp (w.timetable d) [] 0 := by
      simpa using w.keeps_start d stamp 0
    have hlog := Trace.log_of_standsAt hclock hworld hkeeps hT hn
    refine ⟨hlog, fun hend world' hsame hcancelled => ⟨n + (Execution.start w d).stepsLeft, ?_⟩⟩
    intro m hm
    have hcount : (entries due).length = due.length := List.length_map _
    have hends := cancelled_at hlog hend hcount hsame hcancelled hm
    rwa [List.length_map] at hends

/-- Three steps, as in a run that is cancelled while it sleeps behind the first of them. -/
theorem run_keeps_timetable_cancelled :
    let w : Workflow := {
      name := "Long", trigger := some { kind := .manual },
      steps := [
        { kind := .email, name := some "A" }, { kind := .email, name := some "B" },
        { kind := .email, name := some "C" }] }
    let t := Trace.start w {}
    let world := t.punctual toString 0
    (∀ i, (world i).cancelled = false) ∧ Trace.OnTime toString 0 world t ∧
      (∀ x ∈ w.timetable {}, (x.1 : ℚ) ≠ 700) ∧ (700 : ℚ) < w.endTime {} ∧
      ∃ n m, Trace.StandsAt 700 world t n ∧
        let log := (t.run world n).log
        log.map Entry.time = ["0", "500", "500", "500"] ∧
        let world' := fun i => if i < n then world i else { cancelled := true }
        (t.run world' m).execution.outcome = some (.cancelled 4) ∧ (t.run world' m).log = log := by
  intro w t world
  have hworld := t.undisturbed_punctual toString 0
  have hclock := t.onTime_punctual toString 0
  have hT : ∀ x ∈ w.timetable {}, (x.1 : ℚ) ≠ 700 := by decide
  have hend : (700 : ℚ) < w.endTime {} := by decide
  obtain ⟨-, hvisible, -⟩ := w.run_keeps_timetable {} toString world hworld hclock
  obtain ⟨⟨n, hn⟩, hlogs⟩ := hvisible 700 hT
  obtain ⟨hlog, hcancel⟩ := hlogs n hn
  obtain ⟨enough, hends⟩ := hcancel hend (fun i => if i < n then world i else { cancelled := true })
    (fun i hi => if_pos hi) (fun i hi => by rw [if_neg (Nat.not_lt.mpr hi)])
  obtain ⟨houtcome, hlog'⟩ := hends enough (Nat.le_refl enough)
  refine ⟨hworld, hclock, hT, hend, n, enough, hn, ?_, ?_, hlog'.trans hlog.symm⟩
  · rw [hlog]
    decide
  · rw [houtcome]
    decide

end Workflow

end Flowline
