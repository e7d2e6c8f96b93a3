import Flowline.Run.Lines
import Flowline.Config

/-!
# The machine of a run

A run goes through the steps with a stack of work instead of recursion. Taking the top of the
stack gives at least one action, a line or a pause, and may put more work in its place. `next`
gives the actions one at a time.
-/

namespace Flowline

/-- What a run does next. -/
inductive Action where
  | say (line : Line)
  | pause (ms : Nat)
  deriving DecidableEq, Repr

/-- What is left to do. -/
inductive Work where
  /-- A step is to be visited. -/
  | visit (step : Step) (index level : Nat)
  /-- The steps below a container have been visited. -/
  | complete (closing : String) (level : Nat)

namespace Work

/-- The visits of siblings, the first on top. -/
def visits (level : Nat) (index : Nat) : List Step → List Work
  | [] => []
  | s :: ss => visit s index level :: visits level (index + 1) ss

/-- What taking a piece of work gives: a first action, the actions behind it, and the work that
takes its place. -/
def expand (stepDelay : Nat) : Work → Action × List Action × List Work
  | visit s index level =>
    match s.lines index with
    | .container opening closing =>
      (.say (.atLevel level .info opening), [],
        visits (level + 1) 0 s.children ++ [complete closing level])
    | .action info success =>
      (.say (.atLevel level .info info),
        [.say (.atLevel level .success success), .pause stepDelay], [])
  | complete closing level => (.say (.atLevel level .success closing), [.pause stepDelay], [])

/-- What is noticed when a piece of work is taken. -/
def notices : Work → List Notice
  | visit s index _ => s.runNotices index
  | complete .. => []

/-- How many actions a piece of work comes to in the end. -/
def actionCount : Work → Nat
  | visit s _ _ => 3 * s.count
  | complete .. => 2

/-- How many actions a stack of work comes to in the end. -/
def actionCountAll : List Work → Nat
  | [] => 0
  | work :: stack => actionCount work + actionCountAll stack

theorem actionCountAll_append (above below : List Work) :
    actionCountAll (above ++ below) = actionCountAll above + actionCountAll below := by
  induction above with
  | nil => rw [List.nil_append, actionCountAll, Nat.zero_add]
  | cons work above ih => rw [List.cons_append, actionCountAll, ih, actionCountAll, Nat.add_assoc]

theorem actionCountAll_visits (level index : Nat) (ss : List Step) :
    actionCountAll (visits level index ss) = 3 * Step.countAll ss := by
  induction ss generalizing index with
  | nil => rfl
  | cons s ss ih =>
    rw [visits, actionCountAll, ih, actionCount, Step.countAll, Nat.mul_add]

/-- Taking a piece of work gives one of its actions and leaves all the others. -/
theorem actionCount_expand (stepDelay : Nat) (work : Work) :
    1 + (work.expand stepDelay).2.1.length + actionCountAll (work.expand stepDelay).2.2 =
      work.actionCount := by
  cases work with
  | complete closing level => rfl
  | visit s index level =>
    have hcount := s.count_eq
    rcases hlines : s.lines index with ⟨opening, closing⟩ | ⟨info, success⟩
    · simp only [expand, hlines, actionCountAll_append, actionCountAll_visits, actionCountAll,
        actionCount, List.length_nil]
      omega
    · have hleaf : s.children = [] := Step.children_eq_nil_of_lines hlines
      rw [hleaf, Step.countAll] at hcount
      simp only [expand, hlines, actionCountAll, actionCount, hcount, List.length_cons,
        List.length_nil]

end Work

/-- The state of a run: actions that are due, work behind them, and the actions that end it. -/
structure Machine where
  due : List Action
  stack : List Work
  ending : List Action
  stepDelay : Nat

namespace Machine

/-- The machine in front of a workflow. -/
def start (w : Workflow) (d : Delays) : Machine where
  due := [.say w.startLine, .pause d.trigger, .say w.triggerLine]
  stack := Work.visits 0 0 w.steps
  ending := [.pause d.finish, .say Workflow.finalLine]
  stepDelay := d.step

/-- The next action, what is noticed before it, and the machine behind it. -/
def next (m : Machine) : Option (Action × List Notice × Machine) :=
  match m.due, m.stack, m.ending with
  | a :: due, _, _ => some (a, [], { m with due })
  | [], work :: stack, _ =>
    let (a, due, more) := work.expand m.stepDelay
    some (a, work.notices, { m with due, stack := more ++ stack })
  | [], [], a :: ending => some (a, [], { m with ending })
  | [], [], [] => none

/-- How many actions are left. -/
def actionCount (m : Machine) : Nat :=
  m.due.length + Work.actionCountAll m.stack + m.ending.length

/-- Every action that is taken leaves one fewer. -/
theorem actionCount_next {m m' : Machine} {a : Action} {notices : List Notice}
    (h : m.next = some (a, notices, m')) : 1 + m'.actionCount = m.actionCount := by
  rcases m with ⟨due, stack, ending, stepDelay⟩
  rcases due with _ | ⟨b, due⟩
  · rcases stack with _ | ⟨work, stack⟩
    · rcases ending with _ | ⟨b, ending⟩
      · simp [next] at h
      · simp only [next, Option.some.injEq, Prod.mk.injEq] at h
        obtain ⟨-, -, rfl⟩ := h
        simp only [actionCount, List.length_nil, Work.actionCountAll, List.length_cons]
        omega
    · have hcount := work.actionCount_expand stepDelay
      rcases hexpand : work.expand stepDelay with ⟨b, due, more⟩
      simp only [hexpand] at hcount
      simp only [next, hexpand, Option.some.injEq, Prod.mk.injEq] at h
      obtain ⟨-, -, rfl⟩ := h
      simp only [actionCount, Work.actionCountAll_append, Work.actionCountAll, List.length_nil]
      omega
  · simp only [next, Option.some.injEq, Prod.mk.injEq] at h
    obtain ⟨-, -, rfl⟩ := h
    simp only [actionCount, List.length_cons]
    omega

/-- A machine that has no action left to give has none to count. -/
theorem next_eq_none_iff {m : Machine} : m.next = none ↔ m.actionCount = 0 := by
  rcases m with ⟨due, stack, ending, stepDelay⟩
  rcases due with _ | ⟨b, due⟩
  · rcases stack with _ | ⟨work, stack⟩
    · rcases ending with _ | ⟨b, ending⟩ <;> simp [next, actionCount, Work.actionCountAll]
    · have hcount := work.actionCount_expand stepDelay
      simp only [next, reduceCtorEq, actionCount, Work.actionCountAll, false_iff]
      omega
  · simp only [next, reduceCtorEq, actionCount, List.length_cons, false_iff]
    omega

end Machine

end Flowline
