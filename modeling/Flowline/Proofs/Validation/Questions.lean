import Flowline.Proofs.Workflow.Ignored

/-!
# Questionable places

What is questionable about a workflow can be read off its trigger and its visits: at most one thing
about the trigger, and at most two about every visit, in the order of the visits. All of it is
warnings, which decide nothing. `remarks` are the words for it.
-/

namespace Flowline

/-! ## Single places -/

/-- A trigger is questionable if its kind has no meaning. -/
def Trigger.questions (t : Trigger) : List Issue :=
  if t.kind.isKnown then [] else [.unknownTrigger t.kind.tag]

/-- A step is questionable if its kind has no meaning, and if it is no container and has steps below
it that are ignored. -/
theorem Step.questions_eq (s : Step) (index : Nat) (path : String) :
    s.questions index path =
      (if s.kind.isKnown then [] else [.unknownStep s.kind.tag (s.displayName index) path]) ++
      if s.isContainer ∨ s.steps = [] then []
      else [.ignoredSteps (s.displayName index) s.kind s.steps.length path] := by
  rw [questions]
  cases s.kind <;> rfl

/-- What is questionable about a visited step. -/
def Visit.questions (v : Visit) : List Issue := v.step.questions v.index v.path

/-- What a caller is told about a trigger. -/
def Trigger.remarks (t : Trigger) : List Diagnostic :=
  if t.kind.isKnown then []
  else [{
    code := "W002"
    phase := .validate
    message :=
      if t.kind.tag = "" then "Trigger has no type, treated as manual"
      else "Unknown trigger type '" ++ t.kind.tag ++ "', treated as manual"
    stepPath := none }]

/-- What a caller is told about a visited step. -/
def Visit.remarks (v : Visit) : List Diagnostic :=
  (if v.step.kind.isKnown then []
    else [{
      code := "W001"
      phase := .validate
      message :=
        if v.step.kind.tag = "" then "Step '" ++ v.name ++ "' has no type, treated as a no-op"
        else
          "Unknown step type '" ++ v.step.kind.tag ++ "' on '" ++ v.name ++
            "', treated as a no-op"
      stepPath := some v.path }]) ++
  if v.step.isContainer ∨ v.step.steps = [] then []
  else [{
    code := "W003"
    phase := .validate
    message :=
      "Step '" ++ v.name ++ "' of type '" ++ v.step.kind.tag ++ "' has " ++
        toString v.step.steps.length ++ " nested steps; only sub_workflow steps are traversed"
    stepPath := some v.path }]

theorem Trigger.map_diagnostic_questions (t : Trigger) :
    t.questions.map Issue.diagnostic = t.remarks := by
  rw [questions, remarks, apply_ite (List.map Issue.diagnostic)]
  rfl

theorem Visit.map_diagnostic_questions (v : Visit) :
    v.questions.map Issue.diagnostic = v.remarks := by
  rw [questions, Step.questions_eq, List.map_append, apply_ite (List.map Issue.diagnostic),
    apply_ite (List.map Issue.diagnostic)]
  rfl

/-! ## All places -/

theorem Step.lintAll_eq (above : List Nat) (index : Nat) (ss : List Step) :
    lintAll (pathBelow none above) index ss =
      (visitsAll above index ss).flatMap Visit.questions := by
  induction ss using siblings_induction generalizing above index with
  | nil => rfl
  | cons s ss below rest =>
    have hbelow := below (above ++ [index]) 0
    rw [pathBelow_append_singleton] at hbelow
    rw [lintAll_cons, visitsAll_cons, List.flatMap_cons, List.flatMap_append, hbelow, rest]
    rfl

namespace Workflow

variable (w : Workflow)

theorem lint_eq :
    w.lint = w.trigger.toList.flatMap Trigger.questions ++ w.visits.flatMap Visit.questions := by
  rw [lint, visits, ← Step.lintAll_eq, pathBelow_nil]
  rcases w with ⟨name, trigger, steps⟩
  rcases trigger with _ | ⟨kind, config⟩
  · rfl
  · cases kind <;> rfl

theorem anyFatal_lint : Issue.anyFatal w.lint = false := by
  rw [Issue.anyFatal, List.any_eq_false]
  intro i hi
  rw [isWarning_of_mem_lint hi]
  exact Bool.false_ne_true

/-- Everything that is questionable about a workflow, in order: a trigger whose kind has no meaning,
and of the visits, each in its place and with its name, those whose kind has no meaning and those
that are no containers and have steps stored below them. Steps that are stored there make no
difference but that. All of it is warnings, so that nothing becomes fatal by it; `Trigger.remarks`
and `Visit.remarks` are what a caller is told about each place. -/
theorem lint_reports_questionable_places :
    w.lint =
        (w.trigger.toList.flatMap fun t =>
          if t.kind.isKnown then [] else [.unknownTrigger t.kind.tag]) ++
        (w.visits.flatMap fun v =>
          (if v.step.kind.isKnown then [] else [.unknownStep v.step.kind.tag v.name v.path]) ++
          if v.step.isContainer ∨ v.step.steps = [] then []
          else [.ignoredSteps v.name v.step.kind v.step.steps.length v.path]) ∧
      w.bare.lint = w.lint.filter (fun i => i.diagnostic.code ≠ "W003") ∧
      (∀ i ∈ w.lint, i.diagnostic.isWarning = true) ∧
      (∀ before after, Issue.anyFatal (before ++ w.lint ++ after) =
        Issue.anyFatal (before ++ after)) ∧
      w.lint.map Issue.diagnostic =
        w.trigger.toList.flatMap Trigger.remarks ++ w.visits.flatMap Visit.remarks := by
  refine ⟨?_, w.lint_bare, ?_, ?_, ?_⟩
  · have hvisits : (Visit.questions : Visit → List Issue) = fun v =>
        (if v.step.kind.isKnown then [] else [.unknownStep v.step.kind.tag v.name v.path]) ++
        if v.step.isContainer ∨ v.step.steps = [] then []
        else [.ignoredSteps v.name v.step.kind v.step.steps.length v.path] :=
      funext fun v => v.step.questions_eq v.index v.path
    rw [lint_eq, hvisits]
    rfl
  · intro i hi
    rw [Issue.isWarning_diagnostic]
    exact isWarning_of_mem_lint hi
  · intro before after
    have hlint := w.anyFatal_lint
    simp only [Issue.anyFatal, List.any_append] at hlint ⊢
    rw [hlint, Bool.or_false]
  · rw [lint_eq, List.map_append, List.map_flatMap, List.map_flatMap]
    simp only [Trigger.map_diagnostic_questions, Visit.map_diagnostic_questions]

theorem lint_reports_questionable_places_nested :
    let w : Workflow := {
      trigger := some { kind := .other "webhook" }
      steps := [{ kind := .subWorkflow, steps := [{ kind := .other "sms", steps := [{}] }] }] }
    w.lint = [.unknownTrigger "webhook", .unknownStep "sms" "Step 1" "1.1",
        .ignoredSteps "Step 1" (.other "sms") 1 "1.1"] ∧
      (Issue.unknownTrigger "webhook").diagnostic.isWarning = true ∧
      Issue.anyFatal ([.noObject] ++ w.lint ++ []) = true ∧
      w.lint.map Issue.diagnostic = [
        ⟨"W002", .validate, "Unknown trigger type 'webhook', treated as manual", none⟩,
        ⟨"W001", .validate, "Unknown step type 'sms' on 'Step 1', treated as a no-op",
          some "1.1"⟩,
        ⟨"W003", .validate, "Step 'Step 1' of type 'sms' has 1 nested steps; " ++
          "only sub_workflow steps are traversed", some "1.1"⟩] := by
  intro w
  obtain ⟨hlint, -, hwarning, hfatal, hdiagnostics⟩ := w.lint_reports_questionable_places
  refine ⟨hlint.trans (by decide), hwarning _ (by decide), ?_, hdiagnostics.trans (by decide)⟩
  rw [hfatal]
  rfl

end Workflow

end Flowline
