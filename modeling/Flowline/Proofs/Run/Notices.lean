import Flowline.Proofs.Graph.Overwriting
import Flowline.Proofs.Run.Truncation
import Flowline.Proofs.Steps.Addresses
import Flowline.Proofs.Validation.Questions

/-!
# What is noticed about unknown kinds

A kind that has no meaning is a question of validation, and is noticed when a workflow is lowered
and when it is run. All three go through the visits, so what is noticed can be read off the
questions, in their order. The notices of a run are those of its stack: `Work.pending` is what the
work on it comes to, and every step takes its notices off the front, whether or not the run has been
cancelled.
-/

namespace Flowline

namespace Issue

/-- The tag of a trigger whose kind has no meaning. -/
def unknownTrigger? : Issue → Option String
  | unknownTrigger tag => some tag
  | _ => none

/-- The tag and the name of a step whose kind has no meaning. -/
def unknownStep? : Issue → Option (String × String)
  | unknownStep tag name _ => some (tag, name)
  | _ => none

theorem isSome_unknownTrigger? (i : Issue) : i.unknownTrigger?.isSome ↔ i.code = "W002" := by
  cases i <;> simp [unknownTrigger?, code]

theorem isSome_unknownStep? (i : Issue) : i.unknownStep?.isSome ↔ i.code = "W001" := by
  cases i <;> simp [unknownStep?, code]

end Issue

/-! ## Questions about kinds -/

/-- The tag of a kind that has no meaning. -/
def TriggerKind.unknown? : TriggerKind → Option String
  | other tag => some tag
  | _ => none

/-- The tag and the name of a step whose kind has no meaning. -/
def Step.unknown? (s : Step) (index : Nat) : Option (String × String) :=
  match s.kind with
  | .other tag => some (tag, s.displayName index)
  | _ => none

/-- The tag and the name of a visited step whose kind has no meaning. -/
def Visit.unknown? (v : Visit) : Option (String × String) := v.step.unknown? v.index

theorem Trigger.filterMap_questions (t : Trigger) :
    t.questions.filterMap Issue.unknownTrigger? = t.kind.unknown?.toList ∧
      t.questions.filterMap Issue.unknownStep? = [] := by
  rcases t with ⟨kind, config⟩
  cases kind <;> exact ⟨rfl, rfl⟩

theorem Visit.filterMap_questions (v : Visit) :
    v.questions.filterMap Issue.unknownTrigger? = [] ∧
      v.questions.filterMap Issue.unknownStep? = v.unknown?.toList := by
  -- What is asked about steps that are ignored is not about a kind.
  have hignored {α : Type} {f : Issue → Option α} (hf : ∀ name kind count path,
      f (.ignoredSteps name kind count path) = none) :
      (if v.step.isContainer ∨ v.step.steps = [] then []
      else [Issue.ignoredSteps (v.step.displayName v.index) v.step.kind v.step.steps.length
        v.path]).filterMap f = [] := by
    split
    · rfl
    · rw [List.filterMap_cons, hf, List.filterMap_nil]
  rw [questions, Step.questions_eq, List.filterMap_append, List.filterMap_append,
    hignored fun _ _ _ _ => rfl, hignored fun _ _ _ _ => rfl, unknown?, Step.unknown?]
  cases v.step.kind <;> exact ⟨rfl, rfl⟩

namespace Workflow

/-- Validation asks about the kind of the trigger, if it has no meaning. -/
theorem unknownTrigger_lint (w : Workflow) :
    w.lint.filterMap Issue.unknownTrigger? =
      (w.trigger.bind fun t => t.kind.unknown?).toList := by
  have hvisits (vs : List Visit) :
      (vs.flatMap Visit.questions).filterMap Issue.unknownTrigger? = [] := by
    induction vs with
    | nil => rfl
    | cons v vs ih =>
      rw [List.flatMap_cons, List.filterMap_append, v.filterMap_questions.1, ih, List.nil_append]
  rw [lint_eq, List.filterMap_append, hvisits, List.append_nil]
  cases w.trigger with
  | none => rfl
  | some t =>
    rw [Option.toList_some, List.flatMap_singleton, t.filterMap_questions.1]
    rfl

/-- And it asks about the kinds of the visited steps that have no meaning. -/
theorem unknownStep_lint (w : Workflow) :
    w.lint.filterMap Issue.unknownStep? = w.visits.filterMap Visit.unknown? := by
  have htrigger :
      (w.trigger.toList.flatMap Trigger.questions).filterMap Issue.unknownStep? = [] := by
    cases w.trigger with
    | none => rfl
    | some t => rw [Option.toList_some, List.flatMap_singleton, t.filterMap_questions.2]
  rw [lint_eq, List.filterMap_append, htrigger, List.nil_append]
  induction w.visits with
  | nil => rfl
  | cons v vs ih =>
    rw [List.flatMap_cons, List.filterMap_append, v.filterMap_questions.2, ih, List.filterMap_cons]
    cases v.unknown? <;> rfl

end Workflow

/-! ## Notices of lowering -/

theorem Trigger.notice_emit (t : Trigger) (y : Int) :
    (t.emit y).notice = t.kind.unknown?.map Notice.manualTrigger := by
  rcases t with ⟨kind, config⟩
  cases kind <;> rfl

/-- What lowering makes known about a step whose kind has no meaning. -/
def idleNotice (step : String × String) : Notice := .idleNode step.1 step.2

theorem Visit.notice_emit (v : Visit) (y : Int) :
    (v.emit none y).notice = v.unknown?.map idleNotice := by
  rw [unknown?, Step.unknown?, emit, Step.emit]
  cases v.step.kind <;> rfl

namespace Workflow

/-- Emission notices the kind of the trigger, and then the kinds of the visited steps. -/
theorem notices_emit (w : Workflow) :
    w.emit.filterMap Emitted.notice =
      (w.trigger.bind fun t => t.kind.unknown?).toList.map Notice.manualTrigger ++
        (w.visits.filterMap Visit.unknown?).map idleNotice := by
  have hvisits (y : Nat → Int) :
      (w.visits.mapIdx fun i v => v.emit none (y i)).filterMap Emitted.notice =
        (w.visits.filterMap Visit.unknown?).map idleNotice :=
    calc (w.visits.mapIdx fun i v => v.emit none (y i)).filterMap Emitted.notice
      _ = ((w.visits.mapIdx fun i v => v.emit none (y i)).map Emitted.notice).filterMap id := by
        rw [List.filterMap_map]
        rfl
      _ = (w.visits.map fun v => v.unknown?.map idleNotice).filterMap id := by
        rw [map_emit_visits fun v y => v.notice_emit y]
      _ = w.visits.filterMap fun v => v.unknown?.map idleNotice := List.filterMap_map
      _ = (w.visits.filterMap Visit.unknown?).map idleNotice := List.map_filterMap.symm
  cases htrigger : w.trigger with
  | none =>
    rw [emit_of_no_trigger htrigger, hvisits]
    rfl
  | some t =>
    rw [emit_of_trigger htrigger, List.filterMap_cons, t.notice_emit, hvisits fun i => _]
    cases ht : t.kind.unknown? <;> simp [ht]

end Workflow

/-! ## Notices of a run -/

/-- What a run makes known about a step whose kind has no meaning. -/
def plainNotice (step : String × String) : Notice := .plainAction step.1 step.2

theorem Step.runNotices_eq (s : Step) (index : Nat) :
    s.runNotices index = (s.unknown? index).toList.map plainNotice := by
  rw [runNotices, unknown?]
  cases s.kind <;> rfl

/-- The tags and the names of the steps from a list of siblings on whose kinds have no meaning. -/
def Step.unknownAll (index : Nat) (ss : List Step) : List (String × String) :=
  (visitsAll [] index ss).filterMap Visit.unknown?

/-- They do not depend on what is above the siblings. -/
theorem Step.filterMap_visitsAll (above : List Nat) (index : Nat) (ss : List Step) :
    (visitsAll above index ss).filterMap Visit.unknown? = unknownAll index ss := by
  suffices h : ∀ above', (visitsAll above index ss).filterMap Visit.unknown? =
      (visitsAll above' index ss).filterMap Visit.unknown? from h []
  induction ss using siblings_induction generalizing above index with
  | nil =>
    intro above'
    rfl
  | cons s ss below rest =>
    intro above'
    have hhere : (Visit.mk s index above).unknown? = (Visit.mk s index above').unknown? := rfl
    rw [visitsAll_cons, visitsAll_cons, List.filterMap_cons, List.filterMap_cons, hhere,
      List.filterMap_append, List.filterMap_append, below (above ++ [index]) 0 (above' ++ [index]),
      rest above (index + 1) above']

theorem Step.unknownAll_cons (index : Nat) (s : Step) (ss : List Step) :
    unknownAll index (s :: ss) =
      (s.unknown? index).toList ++ unknownAll 0 s.children ++ unknownAll (index + 1) ss := by
  have hhere : (Visit.mk s index []).unknown? = s.unknown? index := rfl
  rw [unknownAll, visitsAll_cons, List.filterMap_cons, List.filterMap_append, filterMap_visitsAll,
    filterMap_visitsAll, hhere, List.append_assoc]
  cases s.unknown? index <;> rfl

namespace Work

/-- What is noticed until a piece of work is done. -/
def pending : Work → List Notice
  | visit s index _ => s.runNotices index ++ (Step.unknownAll 0 s.children).map plainNotice
  | complete .. => []

/-- What is noticed until a stack of work is empty. -/
def pendingAll (stack : List Work) : List Notice := stack.flatMap pending

theorem pendingAll_visits (level index : Nat) (ss : List Step) :
    pendingAll (visits level index ss) = (Step.unknownAll index ss).map plainNotice := by
  induction ss generalizing index with
  | nil => rfl
  | cons s ss ih =>
    rw [visits, pendingAll, List.flatMap_cons, ← pendingAll, ih, Step.unknownAll_cons, pending,
      List.map_append, List.map_append, s.runNotices_eq]

/-- Taking a piece of work gives the first of its notices, and what takes its place on the stack
gives the others. -/
theorem pending_expand (stepDelay : Nat) (work : Work) :
    work.pending = work.notices ++ pendingAll (work.expand stepDelay).2.2 := by
  cases work with
  | complete closing level => rfl
  | visit s index level =>
    rw [pending, notices]
    cases h : s.lines index with
    | container opening closing =>
      simp only [expand, h]
      rw [pendingAll, List.flatMap_append, ← pendingAll, pendingAll_visits]
      simp [pending]
    | action info success =>
      rw [Step.children_eq_nil_of_lines h]
      simp only [expand, h]
      rfl

end Work

/-- Every action that is taken takes its notices off the front of those of the stack. -/
theorem Machine.pending_next {m m' : Machine} {a : Action} {notices : List Notice}
    (h : m.next = some (a, notices, m')) :
    Work.pendingAll m.stack = notices ++ Work.pendingAll m'.stack := by
  rcases m with ⟨due, stack, ending, stepDelay⟩
  rcases due with _ | ⟨b, due⟩
  · rcases stack with _ | ⟨work, stack⟩
    · rcases ending with _ | ⟨b, ending⟩
      · cases h
      · cases h
        rfl
    · have hpending := work.pending_expand stepDelay
      rcases hexpand : work.expand stepDelay with ⟨b, due, more⟩
      simp only [hexpand] at hpending
      simp only [next, hexpand, Option.some.injEq, Prod.mk.injEq] at h
      obtain ⟨-, rfl, rfl⟩ := h
      simp [Work.pendingAll, hpending]
  · cases h
    rfl

namespace Execution

/-- A step that takes an action has its notices, and does not complete the run. -/
theorem step_of_next {e : Execution} {a : Action} {notices : List Notice} {m : Machine}
    (houtcome : e.outcome = none) (hnext : e.machine.next = some (a, notices, m))
    (cancelled patient : Bool) (now : Nat) :
    (e.step cancelled patient now).1.machine = m ∧
      (e.step cancelled patient now).2.2 = notices ∧
      ∀ n, (e.step cancelled patient now).1.outcome ≠ some (.completed n) := by
  cases a <;> cases cancelled <;> cases patient <;> simp [step, hnext, stop, houtcome]

end Execution

namespace Trace

/-- A trace that has noticed the first of some notices, and has the others on its stack. -/
structure Notices (all : List Notice) (t : Trace) : Prop where
  notices : t.notices ++ Work.pendingAll t.execution.machine.stack = all
  completed : ∀ n, t.execution.outcome = some (.completed n) → t.execution.machine.stack = []

theorem Notices.step {all : List Notice} {t : Trace} (h : t.Notices all)
    (houtcome : t.execution.outcome = none) (m : Moment) : (t.step m).Notices all := by
  unfold Trace.step
  cases hdeadline : t.execution.deadline with
  | some deadline =>
    -- The end of a sleep, and a cancellation that wakes it, leave the machine as it is.
    cases m.cancelled && !m.patient with
    | true => exact ⟨h.notices, nofun⟩
    | false => exact ⟨h.notices, h.completed⟩
  | none =>
    cases hnext : t.execution.machine.next with
    | none =>
      have hstep : t.execution.step m.cancelled m.patient m.now =
          ({ t.execution with outcome := some (.completed t.execution.emitted) }, none, []) := by
        rw [Execution.step, hnext]
      simp only [hstep]
      refine ⟨?_, fun _ _ => (Machine.next_eq_none hnext).2⟩
      rw [List.append_nil]
      exact h.notices
    | some next =>
      obtain ⟨a, notices, machine⟩ := next
      obtain ⟨hmachine, hnotices, hgoes⟩ :=
        Execution.step_of_next houtcome hnext m.cancelled m.patient m.now
      refine ⟨?_, fun n hn => absurd hn (hgoes n)⟩
      simp only [hmachine, hnotices]
      rw [List.append_assoc, ← Machine.pending_next hnext, h.notices]

end Trace

namespace Workflow

/-- Whatever happens to a run, it has noticed some of the steps whose kinds have no meaning, the
first ones, and as long as it goes on it has the others on its stack. -/
theorem notices_run (w : Workflow) (d : Delays) (world : Nat → Moment) (n : Nat) :
    ((Trace.start w d).run world n).Notices
      ((w.visits.filterMap Visit.unknown?).map plainNotice) := by
  apply Trace.run_preserves
  · intro i t houtcome h
    exact h.step houtcome (world i)
  · refine ⟨?_, nofun⟩
    exact Work.pendingAll_visits 0 0 w.steps

/-- A run that nobody cancels notices all of them. -/
theorem notices_of_undisturbed (w : Workflow) (d : Delays) {world : Nat → Moment}
    (hworld : ∀ i, (world i).cancelled = false) {n : Nat} (hn : 2 * (w.script d).length + 1 ≤ n) :
    ((Trace.start w d).run world n).notices =
      (w.visits.filterMap Visit.unknown?).map plainNotice := by
  have h := w.notices_run d world n
  have hstack := h.completed _ (outcome_of_completes (completes_start w d hworld hn))
  rw [← h.notices, hstack]
  exact (List.append_nil _).symm

/-! ## What is noticed alike -/

/-- Behind what emission notices, lowering notices links that are replaced, and none if it fails. -/
theorem notices_lower_eq (w : Workflow) (policy : CollisionPolicy) (ids : Nat → Uuid) :
    ∃ drops : List (String × String),
      (w.lower policy ids).notices = w.emit.filterMap Emitted.notice ++ drops.map droppedLink ∧
        ∀ issues, (w.lower policy ids).outcome = .error issues → drops = [] := by
  have hdrops := (projected (w.emit.map Emitted.name)).notices
  rw [List.length_map] at hdrops
  cases hconnections : chainConnections policy w.emit with
  | error issues =>
    simp only [lower, hconnections]
    exact ⟨[], (List.append_nil _).symm, fun _ _ => rfl⟩
  | ok connected =>
    obtain ⟨connections, drops⟩ := connected
    have hproject : project (chain w.emit.length) (w.emit.map Emitted.name) =
        (connections, drops) := by
      cases policy with
      | overwrite => exact Except.ok.inj hconnections
      | reject => exact (project_of_reject hconnections).1
    rw [hproject] at hdrops
    simp only [lower, hconnections]
    refine ⟨_, congrArg (_ ++ ·) hdrops, ?_⟩
    intro issues herror
    cases herror

/-- The path of a question about the kind of a step leads to that step. -/
theorem follow?_of_unknownStep {w : Workflow} {tag name path : String}
    (h : .unknownStep tag name path ∈ w.lint) :
    ∃ ns s index, pathNumbers? path = some ns ∧ Step.follow? w.steps ns = some s ∧
      ns.getLast? = some (index + 1) ∧ s.kind = .other tag ∧ s.displayName index = name := by
  rw [lint_eq, List.mem_append] at h
  rcases h with trigger | step
  · obtain ⟨t, -, hquestion⟩ := List.mem_flatMap.mp trigger
    rw [Trigger.questions] at hquestion
    split at hquestion
    · cases hquestion
    · cases List.mem_singleton.mp hquestion
  · obtain ⟨v, hv, hquestion⟩ := List.mem_flatMap.mp step
    rw [Visit.questions, Step.questions_eq, List.mem_append] at hquestion
    rcases hquestion with unknown | ignored
    · cases hkind : v.step.kind with
      | other other =>
        rw [hkind] at unknown
        obtain ⟨rfl, rfl, rfl⟩ := Issue.unknownStep.inj (List.mem_singleton.mp unknown)
        refine ⟨v.numbers, v.step, v.index, pathNumbers?_path v, ?_, ?_, hkind, rfl⟩
        · exact Step.follow?_eq_some_iff.mpr ⟨v, hv, rfl, rfl⟩
        · simp [Visit.numbers]
      | _ =>
        rw [hkind] at unknown
        cases unknown
    · split at ignored
      · cases ignored
      · cases List.mem_singleton.mp ignored

/-- Validation, lowering and running make the same kinds known that have no meaning. Lowering
notices the trigger that validation asks about, then the steps that it asks about, in the same order
and with the same tags and names, and then nothing but links that are replaced, and not even these
if it fails. A run that nobody cancels notices just the same steps. The questions are those with two
of the codes; there is at most one about the trigger, and each about a step has the path, the tag
and the name of the step it is about. -/
theorem unknown_kinds_are_noticed_alike (w : Workflow) :
    let triggers := w.lint.filterMap Issue.unknownTrigger?
    let steps := w.lint.filterMap Issue.unknownStep?
    (∀ policy ids, ∃ drops : List (String × String),
      (w.lower policy ids).notices =
        triggers.map .manualTrigger ++ steps.map (fun s => .idleNode s.1 s.2) ++
          drops.map (fun link => .droppedConnection link.1 link.2) ∧
      ∀ issues, (w.lower policy ids).outcome = .error issues → drops = []) ∧
    (∀ d world, (∀ i, (world i).cancelled = false) → ∃ enough, ∀ n, enough ≤ n →
      ((Trace.start w d).run world n).notices = steps.map fun s => .plainAction s.1 s.2) ∧
    (∀ d clock, (Simulation.ofWorkflow w d {} clock).notices =
      steps.map fun s => .plainAction s.1 s.2) ∧
    (∀ i : Issue, (i.unknownTrigger?.isSome ↔ i.code = "W002") ∧
      (i.unknownStep?.isSome ↔ i.code = "W001")) ∧
    triggers = (w.trigger.bind fun t => t.kind.unknown?).toList ∧
    ∀ tag name path, .unknownStep tag name path ∈ w.lint →
      ∃ ns s index, pathNumbers? path = some ns ∧ Step.follow? w.steps ns = some s ∧
        ns.getLast? = some (index + 1) ∧ s.kind = .other tag ∧ s.displayName index = name := by
  intro triggers steps
  have hsteps : steps = w.visits.filterMap Visit.unknown? := w.unknownStep_lint
  refine ⟨?_, ?_, ?_, fun i => ⟨i.isSome_unknownTrigger?, i.isSome_unknownStep?⟩,
    w.unknownTrigger_lint, fun _ _ _ => follow?_of_unknownStep⟩
  · intro policy ids
    obtain ⟨drops, hnotices, hfailed⟩ := w.notices_lower_eq policy ids
    refine ⟨drops, ?_, hfailed⟩
    rw [hnotices, notices_emit, hsteps, ← w.unknownTrigger_lint]
    rfl
  · intro d world hworld
    refine ⟨2 * (w.script d).length + 1, fun n hn => ?_⟩
    rw [notices_of_undisturbed w d hworld hn, hsteps]
    rfl
  · intro d clock
    rw [← (shows_ofWorkflow w d clock).notices,
      notices_of_undisturbed w d (Simulation.undisturbed_world _) (Nat.le_refl _), hsteps]
    rfl

/-- A trigger and two steps of unknown kind, one of them below a container, and a step below it that
is not visited. The two steps have one name, so that lowering fails or a link is replaced. -/
theorem unknown_kinds_are_noticed_alike_nested :
    let w : Workflow := {
      trigger := some { kind := .other "cron" }
      steps := [
        { kind := .subWorkflow,
          steps := [
            { kind := .other "sms", name := some "Text", steps := [{ kind := .other "fax" }] }] },
        { kind := .other "", name := some "Text" }, { kind := .email }] }
    let world : Nat → Moment := fun i => { now := i }
    (w.lower .reject fun _ => .ofSeed 0).notices =
        [.manualTrigger "cron", .idleNode "sms" "Text", .idleNode "" "Text"] ∧
      (w.lower .overwrite fun _ => .ofSeed 0).notices =
        [.manualTrigger "cron", .idleNode "sms" "Text", .idleNode "" "Text",
          .droppedConnection "Text" "Text"] ∧
      (∀ i, (world i).cancelled = false) ∧
      ∃ n, ((Trace.start w {}).run world n).notices =
        [.plainAction "sms" "Text", .plainAction "" "Text"] := by
  intro w world
  obtain ⟨hlower, hrun, -⟩ := w.unknown_kinds_are_noticed_alike
  have hworld (i : Nat) : (world i).cancelled = false := rfl
  obtain ⟨drops, hnotices, hfailed⟩ := hlower .reject fun _ => .ofSeed 0
  have herror : (w.lower .reject fun _ => .ofSeed 0).outcome =
      .error [.reusedName "Text" (some "1.1") (some "2")] := by
    rw [lower_outcome_reject, if_neg (by decide)]
    exact congrArg Except.error (by decide)
  obtain ⟨enough, hnoticed⟩ := hrun {} world hworld
  refine ⟨?_, by decide, hworld, enough, ?_⟩
  · rw [hnotices, hfailed _ herror]
    decide
  · rw [hnoticed enough (Nat.le_refl enough)]
    decide

end Workflow

end Flowline
