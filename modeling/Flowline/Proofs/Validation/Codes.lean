import Flowline.Proofs.Steps.Visits
import Flowline.Validation

/-!
# The codes of what validation finds

The parts of a validation are told apart by their codes: steps that are too deep have one code, the
number of steps has another, names that are used twice have a third, and what is merely
questionable is a warning.
-/

namespace Flowline

namespace Issue

/-- The codes of warnings. -/
def warningCodes : List String := ["W001", "W002", "W003"]

theorem isWarning_iff {i : Issue} : i.isWarning = true ↔ i.code ∈ warningCodes := by
  cases i <;> simp [isWarning, code, warningCodes]

theorem code_ne_of_isWarning {i : Issue} (h : i.isWarning = true) {code : String}
    (hcode : code ∉ warningCodes) : i.code ≠ code := by
  rintro rfl
  exact hcode (isWarning_iff.mp h)

/-- Nothing is taken away with a code that does not occur. -/
theorem filter_code_ne {is : List Issue} {code : String} (h : ∀ i ∈ is, i.code ≠ code) :
    (is.filter fun i => i.code ≠ code) = is :=
  List.filter_eq_self.mpr fun i hi => decide_eq_true (h i hi)

/-- Nothing is told with a code that does not occur. -/
theorem filter_code_eq_nil {is : List Issue} {code : String} (h : ∀ i ∈ is, i.code ≠ code) :
    (is.filter fun i => i.diagnostic.code = code) = [] := by
  refine List.filter_eq_nil_iff.mpr fun i hi => ?_
  rw [code_diagnostic, decide_eq_true_iff]
  exact h i hi

end Issue

namespace Step

/-- A branch is reported at its first step that is too deep, and not below it. -/
theorem tooDeepAll_cons (limit level : Nat) (parent : Option String) (index : Nat) (s : Step)
    (ss : List Step) :
    tooDeepAll limit level parent index (s :: ss) =
      (if limit < level then [.tooDeep level limit (childPath parent index)]
        else tooDeepAll limit (level + 1) (some (childPath parent index)) 0 s.children) ++
      tooDeepAll limit level parent (index + 1) ss := by
  rcases s with ⟨id, kind, name, config, steps⟩
  by_cases h : kind = .subWorkflow
  · simp [tooDeepAll, tooDeep, children, isContainer, h]
  · simp [tooDeepAll, tooDeep, children, isContainer, h]

/-- What is questionable about a step comes in front of the steps below it. -/
theorem lintAll_cons (parent : Option String) (index : Nat) (s : Step) (ss : List Step) :
    lintAll parent index (s :: ss) =
      questions s index (childPath parent index) ++
        (lintAll (some (childPath parent index)) 0 s.children ++
          lintAll parent (index + 1) ss) := by
  rcases s with ⟨id, kind, name, config, steps⟩
  by_cases h : kind = .subWorkflow
  · simp [lintAll, lint, children, isContainer, h]
  · simp [lintAll, lint, children, isContainer, h]

theorem code_of_mem_tooDeepAll {limit level : Nat} {parent : Option String} {index : Nat}
    {ss : List Step} {i : Issue} (h : i ∈ tooDeepAll limit level parent index ss) :
    i.code = "V001" := by
  induction ss using siblings_induction generalizing level parent index with
  | nil => cases h
  | cons s ss below rest =>
    rw [tooDeepAll_cons, List.mem_append] at h
    rcases h with here | later
    · split at here
      · rw [List.mem_singleton.mp here]
        rfl
      · exact below here
    · exact rest later

theorem isWarning_of_mem_questions {s : Step} {index : Nat} {path : String} {i : Issue}
    (h : i ∈ questions s index path) : i.isWarning = true := by
  rw [questions, List.mem_append] at h
  rcases h with unknown | ignored
  · cases hkind : s.kind <;> simp only [hkind, List.mem_singleton, List.not_mem_nil] at unknown
    rw [unknown]
    rfl
  · split at ignored
    · cases ignored
    · rw [List.mem_singleton.mp ignored]
      rfl

theorem isWarning_of_mem_lintAll {parent : Option String} {index : Nat} {ss : List Step}
    {i : Issue} (h : i ∈ lintAll parent index ss) : i.isWarning = true := by
  induction ss using siblings_induction generalizing parent index with
  | nil => cases h
  | cons s ss below rest =>
    rw [lintAll_cons, List.mem_append, List.mem_append] at h
    rcases h with here | inner | later
    · exact isWarning_of_mem_questions here
    · exact below inner
    · exact rest later

end Step

namespace Workflow

theorem code_of_mem_tooDeep {w : Workflow} {limits : Limits} {i : Issue}
    (h : i ∈ w.tooDeep limits) : i.code = "V001" :=
  Step.code_of_mem_tooDeepAll h

theorem code_of_mem_tooManySteps {w : Workflow} {limits : Limits} {i : Issue}
    (h : i ∈ w.tooManySteps limits) : i.code = "V002" := by
  rw [tooManySteps] at h
  split at h
  · rw [List.mem_singleton.mp h]
    rfl
  · cases h

theorem isWarning_of_mem_lint {w : Workflow} {i : Issue} (h : i ∈ w.lint) :
    i.isWarning = true := by
  rw [lint, List.mem_append] at h
  rcases h with trigger | steps
  · split at trigger
    · rw [List.mem_singleton.mp trigger]
      rfl
    · cases trigger
  · exact Step.isWarning_of_mem_lintAll steps

end Workflow

end Flowline
