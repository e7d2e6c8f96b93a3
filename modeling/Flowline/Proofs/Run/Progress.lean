import Flowline.Proofs.Run.Script
import Flowline.Run.Execution

/-!
# The progress of an execution

`Execution.Steps` lists what an execution can do at a step, cancelled or not. Whatever it does, it
comes nearer to its end, and `Execution.Follows` holds again: an execution that is under way has
said the lines of the part of its script that is behind it, and one that has ended tells by its
outcome whether it has said them all. The last action of a script is a line, so behind every pause
there is a line left to be refused: this is why an execution that a pause has stopped never counts
as completed.
-/

namespace Flowline

/-- How a run ends that has said some of so many lines. -/
def Outcome.ofCount (total said : Nat) : Outcome :=
  if said = total then completed said else cancelled said

/-! ## What is left of a script -/

/-- The lines of a script. -/
def linesOf (script : List Action) : List Line := script.filterMap Action.line?

/-- A script whose last action is a line. -/
def EndsInLine (script : List Action) : Prop := ∃ line, script.getLast? = some (.say line)

theorem linesOf_append (front rest : List Action) :
    linesOf (front ++ rest) = linesOf front ++ linesOf rest :=
  List.filterMap_append

/-- If the last action of a script is a line, then as long as an action is left, a line is. -/
theorem linesOf_ne_nil {front rest : List Action} (h : EndsInLine (front ++ rest))
    (hrest : rest ≠ []) : linesOf rest ≠ [] := by
  obtain ⟨line, hline⟩ := h
  obtain ⟨action, hlast⟩ := Option.isSome_iff_exists.mp (List.getLast?_isSome.mpr hrest)
  rw [List.getLast?_append, hlast, Option.some_or] at hline
  obtain rfl : action = .say line := Option.some.inj hline
  have hmem : line ∈ linesOf rest :=
    List.mem_filterMap.mpr ⟨.say line, List.mem_of_getLast? hlast, rfl⟩
  exact List.ne_nil_of_mem hmem

theorem Workflow.endsInLine_script (w : Workflow) (d : Delays) : EndsInLine (w.script d) := by
  have hscript : w.script d =
      (.say w.startLine :: .pause d.trigger :: .say w.triggerLine ::
        (Step.scriptAll d.step 0 0 w.steps ++ [.pause d.finish])) ++ [.say finalLine] := by
    simp [script_eq]
  refine ⟨finalLine, ?_⟩
  rw [hscript, List.getLast?_append]
  rfl

namespace Execution

/-! ## What a step can do -/

/-- The steps of an execution that has or has not been cancelled: what it becomes, and the line that
it appends. -/
inductive Steps (e : Execution) : Bool → Execution → Option Line → Prop where
  /-- Nothing is left to do, and nobody looks whether the execution has been cancelled. -/
  | finish {cancelled : Bool} (hawake : e.deadline = none) (hnext : e.machine.next = none) :
    Steps e cancelled { e with outcome := some (.completed e.emitted) } none
  | say {line : Line} {notices : List Notice} {m : Machine} (hawake : e.deadline = none)
    (hnext : e.machine.next = some (.say line, notices, m)) :
    Steps e false { e with machine := m, emitted := e.emitted + 1 } (some line)
  | sleep {ms : Nat} {notices : List Notice} {m : Machine} (deadline : Nat)
    (hawake : e.deadline = none) (hnext : e.machine.next = some (.pause ms, notices, m)) :
    Steps e false { e with machine := m, deadline := some deadline } none
  /-- A pause may be over at once, before the cancellation is seen. -/
  | pass {ms : Nat} {notices : List Notice} {m : Machine} (hawake : e.deadline = none)
    (hnext : e.machine.next = some (.pause ms, notices, m)) :
    Steps e true { e with machine := m } none
  | refuse {a : Action} {notices : List Notice} {m : Machine} (hawake : e.deadline = none)
    (hnext : e.machine.next = some (a, notices, m)) :
    Steps e true (stop { e with machine := m }) none
  /-- So may a sleep. -/
  | wake {cancelled : Bool} (hasleep : e.deadline.isSome) : Steps e cancelled e.wake none
  | interrupt (hasleep : e.deadline.isSome) : Steps e true e.stop none

theorem steps_step {e : Execution} (hawake : e.deadline = none) (cancelled patient : Bool)
    (now : Nat) :
    e.Steps cancelled (e.step cancelled patient now).1 (e.step cancelled patient now).2.1 := by
  cases hnext : e.machine.next with
  | none =>
    simp only [step, hnext]
    exact .finish hawake hnext
  | some next =>
    obtain ⟨a, notices, m⟩ := next
    cases a with
    | say line =>
      cases cancelled with
      | true =>
        simp only [step, hnext, if_true]
        exact .refuse hawake hnext
      | false =>
        simp only [step, hnext, Bool.false_eq_true, if_false]
        exact .say hawake hnext
    | pause ms =>
      cases cancelled with
      | true =>
        cases patient with
        | true =>
          simp only [step, hnext, if_true]
          exact .pass hawake hnext
        | false =>
          simp only [step, hnext, if_true, Bool.false_eq_true, if_false]
          exact .refuse hawake hnext
      | false =>
        simp only [step, hnext, Bool.false_eq_true, if_false]
        exact .sleep (now + ms) hawake hnext

/-- A step that sees a cancellation appends nothing. -/
theorem Steps.line_of_cancelled {e e' : Execution} {line : Option Line} (h : e.Steps true e' line) :
    line = none := by
  cases h <;> rfl

/-! ## How long an execution takes -/

/-- A bound for the steps that are left: two for each action, since a pause may take one more, and
one to come to the end. -/
def stepsLeft (e : Execution) : Nat :=
  if e.outcome.isSome then 0
  else 2 * e.machine.actionCount + (if e.deadline.isSome then 1 else 0) + 1

theorem stepsLeft_of_ended {e : Execution} (h : e.outcome.isSome) : e.stepsLeft = 0 := if_pos h

theorem stepsLeft_le (e : Execution) : e.stepsLeft ≤ 2 * e.machine.actionCount + 2 := by
  unfold stepsLeft
  split
  · omega
  · split <;> omega

theorem lt_stepsLeft {e : Execution} (h : e.outcome = none) :
    2 * e.machine.actionCount < e.stepsLeft := by
  unfold stepsLeft
  rw [h]
  exact Nat.lt_succ_of_le (Nat.le_add_right _ _)

/-- Every step leaves fewer. -/
theorem Steps.stepsLeft_lt {e e' : Execution} {cancelled : Bool} {line : Option Line}
    (h : e.Steps cancelled e' line) (houtcome : e.outcome = none) : e'.stepsLeft < e.stepsLeft := by
  have hbefore := lt_stepsLeft houtcome
  have hafter := e'.stepsLeft_le
  cases h with
  | finish hawake hnext =>
    rw [stepsLeft_of_ended rfl]
    omega
  | say hawake hnext =>
    have hcount := Machine.actionCount_next hnext
    simp only at hafter
    omega
  | sleep deadline hawake hnext =>
    have hcount := Machine.actionCount_next hnext
    simp only at hafter
    omega
  | pass hawake hnext =>
    have hcount := Machine.actionCount_next hnext
    simp only at hafter
    omega
  | refuse hawake hnext =>
    rw [stepsLeft_of_ended rfl]
    omega
  | wake hasleep =>
    unfold stepsLeft Execution.wake
    rw [houtcome, hasleep]
    exact Nat.lt_succ_self _
  | interrupt hasleep =>
    rw [stepsLeft_of_ended rfl]
    omega

/-! ## The way through a script -/

/-- An execution that follows a script and has said some lines. -/
structure Follows (script : List Action) (said : List Line) (e : Execution) : Prop where
  emitted : e.emitted = said.length
  under_way : e.outcome = none →
    ∃ taken, taken ++ e.machine.script = script ∧ linesOf taken = said
  asleep : e.deadline.isSome → linesOf e.machine.script ≠ []
  ended : ∀ o, e.outcome = some o →
    said <+: linesOf script ∧ o = .ofCount (linesOf script).length said.length

theorem follows_start (w : Workflow) (d : Delays) : (start w d).Follows (w.script d) [] :=
  ⟨rfl, fun _ => ⟨[], Machine.script_start w d, rfl⟩, nofun, nofun⟩

section Follows

variable {script : List Action} {said : List Line} {e e' : Execution}

/-- An execution that stops while a line is left has been cancelled. -/
theorem Follows.stop (h : e.Follows script said) (houtcome : e.outcome = none)
    (hleft : linesOf e.machine.script ≠ []) (m : Machine) :
    Follows script said (Execution.stop { e with machine := m }) := by
  obtain ⟨taken, hscript, hsaid⟩ := h.under_way houtcome
  have hlines : linesOf script = said ++ linesOf e.machine.script := by
    rw [← hscript, linesOf_append, hsaid]
  have hcount : said.length ≠ (linesOf script).length := by
    have hpos := List.length_pos_iff.mpr hleft
    rw [hlines, List.length_append]
    omega
  refine ⟨h.emitted, nofun, nofun, ?_⟩
  intro o ho
  obtain rfl : .cancelled e.emitted = o := Option.some.inj ho
  constructor
  · rw [hlines]
    exact List.prefix_append said _
  · rw [Outcome.ofCount, if_neg hcount, h.emitted]

/-- At any time, what an execution has said is how its script begins. -/
theorem Follows.begins (h : e.Follows script said) : said <+: linesOf script := by
  cases houtcome : e.outcome with
  | some o => exact (h.ended o houtcome).1
  | none =>
    obtain ⟨taken, hscript, hsaid⟩ := h.under_way houtcome
    rw [← hscript, linesOf_append, hsaid]
    exact List.prefix_append said _

/-- The end of a sleep changes nothing about what has been said. -/
theorem Follows.wake (h : e.Follows script said) : e.wake.Follows script said :=
  ⟨h.emitted, h.under_way, fun hasleep => absurd hasleep Bool.false_ne_true, h.ended⟩

/-- Whatever an execution does at a step, it goes on to follow its script. -/
theorem Follows.step {cancelled : Bool} {line : Option Line} (hstep : e.Steps cancelled e' line)
    (h : e.Follows script said) (hlast : EndsInLine script) (houtcome : e.outcome = none) :
    e'.Follows script (said ++ line.toList) := by
  obtain ⟨taken, hscript, hsaid⟩ := h.under_way houtcome
  have hawake {P : Prop} (hnone : e.deadline = none) (hsome : e.deadline.isSome) : P := by
    rw [hnone] at hsome
    cases hsome
  -- What has been taken, and what is left, once the next action is taken too.
  have htake {a : Action} {notices : List Notice} {m : Machine}
      (hnext : e.machine.next = some (a, notices, m)) :
      (taken ++ [a]) ++ m.script = script ∧ linesOf (taken ++ [a]) = said ++ a.line?.toList ∧
        linesOf (a :: m.script) ≠ [] := by
    have htaken : e.machine.script = a :: m.script := (Machine.script_next hnext).1
    rw [htaken] at hscript
    refine ⟨?_, ?_, ?_⟩
    · rw [List.append_assoc, List.singleton_append, hscript]
    · rw [linesOf_append, hsaid]
      cases a <;> rfl
    · rw [← hscript] at hlast
      exact linesOf_ne_nil hlast (List.cons_ne_nil a _)
  cases hstep with
  | finish hnone hnext =>
    rw [(Machine.next_eq_none hnext).1, List.append_nil] at hscript
    subst hscript
    rw [Option.toList_none, List.append_nil]
    refine ⟨h.emitted, fun hgoes => absurd hgoes (Option.some_ne_none _), hawake hnone, ?_⟩
    intro o ho
    obtain rfl : .completed e.emitted = o := Option.some.inj ho
    rw [hsaid]
    refine ⟨List.prefix_refl said, ?_⟩
    rw [Outcome.ofCount, if_pos rfl, h.emitted]
  | say hnone hnext =>
    obtain ⟨hrest, hsaid', -⟩ := htake hnext
    refine ⟨?_, fun _ => ⟨_, hrest, hsaid'⟩, hawake hnone, ?_⟩
    · rw [h.emitted, Option.toList_some, List.length_append, List.length_singleton]
    · intro o ho
      rw [houtcome] at ho
      cases ho
  | sleep deadline hnone hnext =>
    obtain ⟨hrest, hsaid', hleft⟩ := htake hnext
    rw [Option.toList_none, List.append_nil]
    rw [Action.line?, Option.toList_none, List.append_nil] at hsaid'
    exact ⟨h.emitted, fun _ => ⟨_, hrest, hsaid'⟩, fun _ => hleft, h.ended⟩
  | pass hnone hnext =>
    obtain ⟨hrest, hsaid', hleft⟩ := htake hnext
    rw [Option.toList_none, List.append_nil]
    rw [Action.line?, Option.toList_none, List.append_nil] at hsaid'
    exact ⟨h.emitted, fun _ => ⟨_, hrest, hsaid'⟩, hawake hnone, h.ended⟩
  | refuse hnone hnext =>
    obtain ⟨-, -, hleft⟩ := htake hnext
    rw [Option.toList_none, List.append_nil]
    apply h.stop houtcome
    rwa [(Machine.script_next hnext).1]
  | wake hsome =>
    rw [Option.toList_none, List.append_nil]
    exact h.wake
  | interrupt hsome =>
    rw [Option.toList_none, List.append_nil]
    exact h.stop houtcome (h.asleep hsome) e.machine

end Follows

/-! ## Steps in a row -/

/-- An execution that has said some lines takes so many steps, or fewer if it has ended before. -/
inductive Runs : Nat → Execution → List Line → Execution → List Line → Prop where
  | zero (e : Execution) (said : List Line) : Runs 0 e said e said
  | ended {n : Nat} {e : Execution} {said : List Line} (hended : e.outcome.isSome) :
    Runs n e said e said
  | step {n : Nat} {e e' e'' : Execution} {said said' : List Line} {cancelled : Bool}
    {line : Option Line} (houtcome : e.outcome = none) (hstep : e.Steps cancelled e' line)
    (hrest : Runs n e' (said ++ line.toList) e'' said') : Runs (n + 1) e said e'' said'

section Runs

variable {n : Nat} {e e' : Execution} {said said' : List Line}

theorem Runs.follows (h : Runs n e said e' said') {script : List Action}
    (hlast : EndsInLine script) (hfollows : e.Follows script said) : e'.Follows script said' := by
  induction h with
  | zero e said => exact hfollows
  | ended hended => exact hfollows
  | step houtcome hstep hrest ih =>
    apply ih
    exact hfollows.step hstep hlast houtcome

/-- An execution that may take all the steps it has left comes to its end. -/
theorem Runs.isSome_outcome (h : Runs n e said e' said') (hn : e.stepsLeft ≤ n) :
    e'.outcome.isSome := by
  induction h with
  | zero e said =>
    cases houtcome : e.outcome with
    | some o => rfl
    | none =>
      have hleft := lt_stepsLeft houtcome
      omega
  | ended hended => exact hended
  | step houtcome hstep hrest ih =>
    have hless := hstep.stepsLeft_lt houtcome
    apply ih
    omega

end Runs

end Execution

end Flowline
