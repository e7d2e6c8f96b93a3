import Flowline.Proofs.Steps.Visits
import Flowline.Run.Machine

/-!
# The script of a run

A script is everything a run has to do: its lines and its pauses in order. The script of a workflow
is defined by recursion over its steps, and so are its lines alone, the transcript. Both are written
out in full, down to the blanks in front of a line, and take nothing from the machine but the texts
of the steps; `script_eq` and `transcript_eq` find in them the lines as the machine makes them.

The script of a machine is defined by what is due, what is on its stack, and what ends the run.
`script_next` ties the two together: an action that a machine takes is the first of its script, and
the rest of the script is left. So a machine that is put in front of a workflow follows the script
of the workflow, whatever becomes of its stack on the way.
-/

namespace Flowline

namespace Action

/-- The line that is said. -/
def line? : Action → Option Line
  | say line => some line
  | pause _ => none

/-- How long a pause is. -/
def pause? : Action → Option Nat
  | say _ => none
  | pause ms => some ms

end Action

namespace StepLines

/-- The first line of a step: in front of the steps below a container, and of information else. -/
def opening : StepLines → String
  | container opening _ => opening
  | action info _ => info

/-- The last line of a step, which says that it has succeeded. -/
def closing : StepLines → String
  | container _ closing => closing
  | action _ success => success

end StepLines

/-! ## Scripts of steps -/

namespace Step

mutual

/-- The lines from a step on, each behind two blanks for every container that the step is in. -/
def transcript (level index : Nat) : Step → List Line
  | ⟨id, kind, name, config, steps⟩ =>
    let blanks := String.ofList (List.replicate (2 * level) ' ')
    match lines ⟨id, kind, name, config, steps⟩ index with
    | .container opening closing =>
      ⟨.info, blanks ++ opening⟩ ::
        (transcriptAll (level + 1) 0 steps ++ [⟨.success, blanks ++ closing⟩])
    | .action info success => [⟨.info, blanks ++ info⟩, ⟨.success, blanks ++ success⟩]

/-- The lines from a list of siblings on. -/
def transcriptAll (level index : Nat) : List Step → List Line
  | [] => []
  | s :: ss => transcript level index s ++ transcriptAll level (index + 1) ss

end

mutual

/-- The script from a step on: its lines, and a pause behind the last of them. -/
def script (stepDelay level index : Nat) : Step → List Action
  | ⟨id, kind, name, config, steps⟩ =>
    let blanks := String.ofList (List.replicate (2 * level) ' ')
    match lines ⟨id, kind, name, config, steps⟩ index with
    | .container opening closing =>
      .say ⟨.info, blanks ++ opening⟩ ::
        (scriptAll stepDelay (level + 1) 0 steps ++
          [.say ⟨.success, blanks ++ closing⟩, .pause stepDelay])
    | .action info success =>
      [.say ⟨.info, blanks ++ info⟩, .say ⟨.success, blanks ++ success⟩, .pause stepDelay]

/-- The script from a list of siblings on. -/
def scriptAll (stepDelay level index : Nat) : List Step → List Action
  | [] => []
  | s :: ss => script stepDelay level index s ++ scriptAll stepDelay level (index + 1) ss

end

theorem isContainer_of_lines {s : Step} {index : Nat} {opening closing : String}
    (h : s.lines index = .container opening closing) : s.isContainer = true := by
  cases hkind : s.kind <;> simp [lines, hkind] at h
  simp [isContainer, hkind]

theorem isContainer_eq_false_of_lines {s : Step} {index : Nat} {info success : String}
    (h : s.lines index = .action info success) : s.isContainer = false := by
  cases hkind : s.kind <;> simp_all [isContainer, lines]

theorem children_of_lines {s : Step} {index : Nat} {opening closing : String}
    (h : s.lines index = .container opening closing) : s.children = s.steps := by
  rw [children, if_pos (isContainer_of_lines h)]

/-- Every step has a line in front of the steps visited below it, and a line and a pause behind
them, indented as the machine does it. -/
theorem script_eq (stepDelay level index : Nat) (s : Step) :
    script stepDelay level index s =
      .say (.atLevel level .info (s.lines index).opening) ::
        (scriptAll stepDelay (level + 1) 0 s.children ++
          [.say (.atLevel level .success (s.lines index).closing), .pause stepDelay]) := by
  rcases s with ⟨id, kind, name, config, steps⟩
  rw [script]
  cases h : lines ⟨id, kind, name, config, steps⟩ index with
  | container opening closing =>
    rw [children_of_lines h]
    rfl
  | action info success =>
    rw [children_eq_nil_of_lines h]
    rfl

/-- The transcript is shaped like the script. -/
theorem transcript_eq (level index : Nat) (s : Step) :
    transcript level index s =
      .atLevel level .info (s.lines index).opening ::
        (transcriptAll (level + 1) 0 s.children ++
          [.atLevel level .success (s.lines index).closing]) := by
  rcases s with ⟨id, kind, name, config, steps⟩
  rw [transcript]
  cases h : lines ⟨id, kind, name, config, steps⟩ index with
  | container opening closing =>
    rw [children_of_lines h]
    rfl
  | action info success =>
    rw [children_eq_nil_of_lines h]
    rfl

/-- The lines of a script are the transcript. -/
theorem lines_scriptAll (stepDelay level index : Nat) (ss : List Step) :
    (scriptAll stepDelay level index ss).filterMap Action.line? = transcriptAll level index ss := by
  induction ss using siblings_induction generalizing level index with
  | nil => rfl
  | cons s ss below rest =>
    rw [scriptAll, transcriptAll, script_eq, transcript_eq, List.filterMap_append, rest]
    simp [List.filterMap_cons, Action.line?, below]

/-- The pauses of a script are one for each visited step. -/
theorem pauses_scriptAll (stepDelay level index : Nat) (ss : List Step) :
    (scriptAll stepDelay level index ss).filterMap Action.pause? =
      List.replicate (countAll ss) stepDelay := by
  induction ss using siblings_induction generalizing level index with
  | nil => rfl
  | cons s ss below rest =>
    rw [scriptAll, script_eq, List.filterMap_append, rest, countAll_cons, Nat.add_comm 1,
      ← List.replicate_append_replicate, ← List.replicate_append_replicate]
    simp [List.filterMap_cons, Action.pause?, below]

theorem length_transcriptAll (level index : Nat) (ss : List Step) :
    (transcriptAll level index ss).length = 2 * countAll ss := by
  induction ss using siblings_induction generalizing level index with
  | nil => rfl
  | cons s ss below rest =>
    rw [transcriptAll, transcript_eq, countAll_cons]
    simp only [List.cons_append, List.length_cons, List.length_append, List.length_nil, below, rest]
    omega

end Step

namespace Workflow

/-- What a run calls the trigger: the tag of its kind, or manual where there is none. -/
def activation (w : Workflow) : String :=
  w.trigger.elim "manual" fun t => if t.kind.tag = "" then "manual" else t.kind.tag

/-- All lines of a run that is not cancelled. -/
def transcript (w : Workflow) : List Line :=
  [⟨.success, "Starting workflow: " ++ w.displayName⟩,
    ⟨.info, "Trigger activated: " ++ w.activation⟩] ++
  Step.transcriptAll 0 0 w.steps ++ [⟨.success, "Workflow completed successfully!"⟩]

/-- The script of a workflow: the pause of the trigger, the scripts of its steps, and the pause
before the end. -/
def script (w : Workflow) (d : Delays) : List Action :=
  [.say ⟨.success, "Starting workflow: " ++ w.displayName⟩, .pause d.trigger,
    .say ⟨.info, "Trigger activated: " ++ w.activation⟩] ++
  Step.scriptAll d.step 0 0 w.steps ++
  [.pause d.finish, .say ⟨.success, "Workflow completed successfully!"⟩]

theorem triggerLine_eq (w : Workflow) :
    w.triggerLine = ⟨.info, "Trigger activated: " ++ w.activation⟩ := by
  rcases w with ⟨name, trigger, steps⟩
  cases trigger <;> rfl

theorem transcript_eq (w : Workflow) :
    w.transcript =
      w.startLine :: w.triggerLine :: (Step.transcriptAll 0 0 w.steps ++ [finalLine]) := by
  rw [triggerLine_eq]
  rfl

theorem script_eq (w : Workflow) (d : Delays) :
    w.script d =
      .say w.startLine :: .pause d.trigger :: .say w.triggerLine ::
        (Step.scriptAll d.step 0 0 w.steps ++ [.pause d.finish, .say finalLine]) := by
  rw [triggerLine_eq]
  rfl

theorem lines_script (w : Workflow) (d : Delays) :
    (w.script d).filterMap Action.line? = w.transcript := by
  simp [script_eq, transcript_eq, List.filterMap_cons, Action.line?, Step.lines_scriptAll]

theorem pauses_script (w : Workflow) (d : Delays) :
    (w.script d).filterMap Action.pause? =
      d.trigger :: (List.replicate w.stepCount d.step ++ [d.finish]) := by
  simp [script_eq, List.filterMap_cons, Action.pause?, Step.pauses_scriptAll, stepCount]

theorem length_transcript (w : Workflow) : w.transcript.length = 2 * w.stepCount + 3 := by
  simp [transcript_eq, Step.length_transcriptAll, stepCount]

end Workflow

/-! ## Scripts of machines -/

namespace Work

/-- The script of a piece of work. -/
def script (stepDelay : Nat) : Work → List Action
  | visit s index level => s.script stepDelay level index
  | complete closing level => [.say (.atLevel level .success closing), .pause stepDelay]

/-- The script of a stack of work, the top first. -/
def scriptAll (stepDelay : Nat) (stack : List Work) : List Action :=
  stack.flatMap (script stepDelay)

theorem scriptAll_visits (stepDelay level index : Nat) (ss : List Step) :
    scriptAll stepDelay (visits level index ss) = Step.scriptAll stepDelay level index ss := by
  induction ss generalizing index with
  | nil => rfl
  | cons s ss ih =>
    rw [visits, scriptAll, List.flatMap_cons, Step.scriptAll, ← ih]
    rfl

/-- Taking a piece of work gives the first of its actions; what is due then, and what takes its
place on the stack, is the rest of its script. -/
theorem script_expand (stepDelay : Nat) (work : Work) :
    work.script stepDelay =
      (work.expand stepDelay).1 ::
        ((work.expand stepDelay).2.1 ++ scriptAll stepDelay (work.expand stepDelay).2.2) := by
  cases work with
  | complete closing level => rfl
  | visit s index level =>
    rw [script, Step.script_eq]
    cases h : s.lines index with
    | container opening closing =>
      simp only [expand, h, scriptAll, List.flatMap_append, List.nil_append]
      rw [← scriptAll, scriptAll_visits]
      rfl
    | action info success =>
      rw [Step.children_eq_nil_of_lines h]
      simp only [expand, h]
      rfl

/-- How often the stack is popped until a piece of work is done: once for each visited step, and
once more for each container. -/
def pops : Work → Nat
  | visit s _ _ => s.count + ((Step.reached [s]).filter Step.isContainer).length
  | complete .. => 1

/-- How often a stack of work is popped until it is empty. -/
def popsAll : List Work → Nat
  | [] => 0
  | work :: stack => pops work + popsAll stack

theorem popsAll_append (above below : List Work) :
    popsAll (above ++ below) = popsAll above + popsAll below := by
  induction above with
  | nil => rw [List.nil_append, popsAll, Nat.zero_add]
  | cons work above ih => rw [List.cons_append, popsAll, ih, popsAll, Nat.add_assoc]

theorem popsAll_visits (level index : Nat) (ss : List Step) :
    popsAll (visits level index ss) =
      Step.countAll ss + ((Step.reached ss).filter Step.isContainer).length := by
  induction ss generalizing index with
  | nil => rfl
  | cons s ss ih =>
    rw [visits, popsAll, ih, pops, Step.countAll, Step.reached_cons s ss, Step.reached_cons s []]
    simp only [List.filter_cons, List.filter_append]
    split <;> simp [Step.reached] <;> omega

/-- Taking a piece of work pops it, and leaves all the other pops it comes to. -/
theorem pops_expand (stepDelay : Nat) (work : Work) :
    work.pops = 1 + popsAll (work.expand stepDelay).2.2 := by
  cases work with
  | complete closing level => rfl
  | visit s index level =>
    rw [pops, Step.count_eq, Step.reached_cons]
    cases h : s.lines index with
    | container opening closing =>
      simp only [expand, h, popsAll_append, popsAll_visits, List.filter_cons, List.filter_append,
        Step.isContainer_of_lines h]
      simp [Step.reached, popsAll, pops]
      omega
    | action info success =>
      simp [expand, h, Step.children_eq_nil_of_lines h, Step.isContainer_eq_false_of_lines h,
        Step.reached, Step.countAll, popsAll]

end Work

namespace Machine

/-- Everything a machine has left to do. -/
def script (m : Machine) : List Action := m.due ++ Work.scriptAll m.stepDelay m.stack ++ m.ending

/-- How often the next action pops the stack of a machine: once, or not at all if something is due
or the stack is empty. -/
def popsNext (m : Machine) : Nat := if m.due.isEmpty && !m.stack.isEmpty then 1 else 0

/-- What a machine takes is the first of its script, and the rest is left. The stack has been popped
as often as the remaining pops have become fewer. -/
theorem script_next {m m' : Machine} {a : Action} {notices : List Notice}
    (h : m.next = some (a, notices, m')) :
    m.script = a :: m'.script ∧
      Work.popsAll m.stack = m.popsNext + Work.popsAll m'.stack := by
  rcases m with ⟨due, stack, ending, stepDelay⟩
  rcases due with _ | ⟨b, due⟩
  · rcases stack with _ | ⟨work, stack⟩
    · rcases ending with _ | ⟨b, ending⟩
      · cases h
      · cases h
        exact ⟨rfl, rfl⟩
    · have hscript := work.script_expand stepDelay
      have hpops := work.pops_expand stepDelay
      rcases hexpand : work.expand stepDelay with ⟨b, due, more⟩
      simp only [hexpand] at hscript hpops
      simp only [next, hexpand, Option.some.injEq, Prod.mk.injEq] at h
      obtain ⟨rfl, -, rfl⟩ := h
      constructor
      · simp [script, Work.scriptAll, hscript]
      · rw [Work.popsAll, Work.popsAll_append, hpops, Nat.add_assoc]
        rfl
  · cases h
    refine ⟨rfl, ?_⟩
    rw [popsNext, List.isEmpty_cons, Bool.false_and, if_neg Bool.false_ne_true, Nat.zero_add]

theorem next_eq_none {m : Machine} (h : m.next = none) : m.script = [] ∧ m.stack = [] := by
  rcases m with ⟨due, stack, ending, stepDelay⟩
  rcases due with _ | ⟨b, due⟩
  · rcases stack with _ | ⟨work, stack⟩
    · rcases ending with _ | ⟨b, ending⟩
      · exact ⟨rfl, rfl⟩
      · cases h
    · cases h
  · cases h

/-- The length of a script is the number of actions that are left. -/
theorem length_script (m : Machine) : m.script.length = m.actionCount := by
  induction hscript : m.script generalizing m with
  | nil =>
    have hnext : m.next = none := by
      cases hnext : m.next with
      | none => rfl
      | some taken =>
        rw [(script_next hnext).1] at hscript
        cases hscript
    exact (next_eq_none_iff.mp hnext).symm
  | cons a script ih =>
    cases hnext : m.next with
    | none =>
      rw [(next_eq_none hnext).1] at hscript
      cases hscript
    | some taken =>
      obtain ⟨b, notices, m'⟩ := taken
      obtain ⟨-, hrest⟩ := List.cons.inj (hscript.symm.trans (script_next hnext).1)
      rw [List.length_cons, ih m' hrest.symm, ← actionCount_next hnext, Nat.add_comm]

theorem script_start (w : Workflow) (d : Delays) : (start w d).script = w.script d := by
  rw [script, start, Work.scriptAll_visits, Workflow.script_eq, List.append_assoc]
  rfl

end Machine

end Flowline
