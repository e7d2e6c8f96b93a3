import Flowline.Proofs.Graph.Identities
import Flowline.Proofs.Validation.Severity

/-!
# What is ignored about steps

No traversal looks at the identity that a step was given, or at the steps that are stored below a
step that is no container. `Step.Alike` relates steps that differ in nothing else, and `Step.bare`
takes it all away, so that steps are alike just if they are the same when they are bare. What a
traversal gives is then compared on bare steps: it is what it was, except that a validation has
nothing left to say about steps that are ignored.
-/

namespace Flowline

namespace Step

/-! ## Alike steps -/

mutual

/-- Steps that do the same, with the same steps visited below them. -/
def Alike : Step → Step → Prop
  | ⟨_, kind, name, config, steps⟩, ⟨_, kind', name', config', steps'⟩ =>
    kind = kind' ∧ name = name' ∧ config = config' ∧ (kind = .subWorkflow → AllAlike steps steps')

/-- Siblings that are alike one by one. -/
def AllAlike : List Step → List Step → Prop
  | [], [] => True
  | s :: ss, s' :: ss' => Alike s s' ∧ AllAlike ss ss'
  | _, _ => False

end

mutual

/-- A step without anything that is ignored. -/
def bare : Step → Step
  | ⟨_, kind, name, config, steps⟩ =>
    ⟨none, kind, name, config, if kind = .subWorkflow then bareAll steps else []⟩

/-- Siblings without anything that is ignored. -/
def bareAll : List Step → List Step
  | [] => []
  | s :: ss => bare s :: bareAll ss

end

mutual

theorem alike_iff : (s s' : Step) → Alike s s' ↔ s.bare = s'.bare
  | ⟨id, kind, name, config, steps⟩, ⟨id', kind', name', config', steps'⟩ => by
    rw [Alike, bare, bare, allAlike_iff steps steps']
    simp only [mk.injEq, true_and]
    constructor
    · rintro ⟨rfl, rfl, rfl, hsteps⟩
      refine ⟨rfl, rfl, rfl, ?_⟩
      by_cases hkind : kind = .subWorkflow
      · rw [if_pos hkind, if_pos hkind, hsteps hkind]
      · rw [if_neg hkind, if_neg hkind]
    · rintro ⟨rfl, rfl, rfl, hsteps⟩
      refine ⟨rfl, rfl, rfl, fun hkind => ?_⟩
      rwa [if_pos hkind, if_pos hkind] at hsteps

theorem allAlike_iff : (ss ss' : List Step) → AllAlike ss ss' ↔ bareAll ss = bareAll ss'
  | [], [] => by simp [AllAlike]
  | [], _ :: _ => by simp [AllAlike, bareAll]
  | _ :: _, [] => by simp [AllAlike, bareAll]
  | s :: ss, s' :: ss' => by
    rw [AllAlike, bareAll, bareAll, List.cons.injEq, alike_iff s s', allAlike_iff ss ss']

end

/-! ## Bare steps -/

@[simp] theorem kind_bare (s : Step) : s.bare.kind = s.kind := by
  rcases s with ⟨id, kind, name, config, steps⟩
  rw [bare]

@[simp] theorem name_bare (s : Step) : s.bare.name = s.name := by
  rcases s with ⟨id, kind, name, config, steps⟩
  rw [bare]

@[simp] theorem config_bare (s : Step) : s.bare.config = s.config := by
  rcases s with ⟨id, kind, name, config, steps⟩
  rw [bare]

theorem bareAll_eq_map (ss : List Step) : bareAll ss = ss.map bare := by
  induction ss with
  | nil => rfl
  | cons s ss ih => rw [bareAll, ih, List.map_cons]

theorem children_bare (s : Step) : s.bare.children = s.children.map bare := by
  rcases s with ⟨id, kind, name, config, steps⟩
  rw [bare]
  by_cases hkind : kind = .subWorkflow
  · simp [children, isContainer, hkind, bareAll_eq_map]
  · simp [children, isContainer, hkind]

@[simp] theorem displayName_bare (s : Step) (index : Nat) :
    s.bare.displayName index = s.displayName index := by
  rw [displayName, displayName, name_bare]

/-! ## Traversals of bare steps -/

theorem tooDeepAll_bare (limit level : Nat) (parent : Option String) (index : Nat)
    (ss : List Step) :
    tooDeepAll limit level parent index (ss.map bare) = tooDeepAll limit level parent index ss := by
  induction ss using siblings_induction generalizing level parent index with
  | nil => rfl
  | cons s ss below rest =>
    rw [List.map_cons, tooDeepAll_cons, tooDeepAll_cons, children_bare, below, rest]

/-- Nothing is questionable about a bare step but its kind. -/
theorem questions_bare (s : Step) (index : Nat) (path : String) :
    questions s.bare index path = (questions s index path).filter fun i => i.code ≠ "W003" := by
  have hnone : s.bare.isContainer ∨ s.bare.steps = [] := by
    rcases s with ⟨id, kind, name, config, steps⟩
    rw [bare]
    by_cases hkind : kind = .subWorkflow
    · exact .inl (decide_eq_true hkind)
    · exact .inr (if_neg hkind)
  have hignored : (if s.isContainer ∨ s.steps = [] then []
      else [Issue.ignoredSteps (s.displayName index) s.kind s.steps.length path]).filter
        (fun i => i.code ≠ "W003") = [] := by
    split <;> simp [Issue.code]
  rw [questions, questions, if_pos hnone, List.filter_append, hignored, kind_bare,
    displayName_bare]
  cases s.kind <;> simp [Issue.code]

theorem lintAll_bare (parent : Option String) (index : Nat) (ss : List Step) :
    lintAll parent index (ss.map bare) =
      (lintAll parent index ss).filter fun i => i.code ≠ "W003" := by
  induction ss using siblings_induction generalizing parent index with
  | nil => rfl
  | cons s ss below rest =>
    rw [List.map_cons, lintAll_cons, lintAll_cons, List.filter_append, List.filter_append,
      questions_bare, children_bare, below, rest]

end Step

/-! ## Visits of bare steps -/

/-- A visit of a bare step. -/
def Visit.bare (v : Visit) : Visit := { v with step := v.step.bare }

theorem collisions_map_bare (used : Step.Seen) (vs : List Visit) :
    collisions used (vs.map Visit.bare) = collisions used vs := by
  have hname (v : Visit) : v.bare.name = v.name := v.step.displayName_bare v.index
  induction vs generalizing used with
  | nil => rfl
  | cons v vs ih =>
    rw [List.map_cons, collisions, collisions, ih, Visit.use, Visit.use, hname]
    rfl

/-! ## Workflows -/

namespace Workflow

/-- Workflows that differ in nothing but what is ignored about their steps. -/
def Alike (w w' : Workflow) : Prop :=
  w.name = w'.name ∧ w.trigger = w'.trigger ∧ Step.AllAlike w.steps w'.steps

/-- A workflow with bare steps. -/
def bare (w : Workflow) : Workflow := { w with steps := w.steps.map Step.bare }

theorem alike_iff {w w' : Workflow} : w.Alike w' ↔ w.bare = w'.bare := by
  rw [Alike, bare, bare, mk.injEq, Step.allAlike_iff, Step.bareAll_eq_map, Step.bareAll_eq_map]

variable (w : Workflow)

theorem stepCount_bare : w.bare.stepCount = w.stepCount :=
  Step.countAll_map Step.children_bare w.steps

theorem depth_bare : w.bare.depth = w.depth := Step.depthAll_map Step.children_bare w.steps

theorem visits_bare : w.bare.visits = w.visits.map Visit.bare :=
  Step.visitsAll_map Step.children_bare [] 0 w.steps

theorem collisions_bare : w.bare.collisions = w.collisions := by
  rw [collisions, collisions, visits_bare, collisions_map_bare]
  rfl

theorem lint_bare : w.bare.lint = w.lint.filter fun i => i.code ≠ "W003" := by
  rw [lint, lint, List.filter_append, bare, Step.lintAll_bare]
  rcases w with ⟨name, trigger, steps⟩
  rcases trigger with _ | ⟨kind, config⟩
  · rfl
  · cases kind <;> simp [Issue.code]

/-- A validation of a bare workflow has nothing to say about ignored steps, and says everything
else. -/
theorem validate_bare (limits : Limits) (policy : CollisionPolicy) :
    w.bare.validate limits policy =
      (w.validate limits policy).filter fun i => i.code ≠ "W003" := by
  have hdepth : w.bare.tooDeep limits = w.tooDeep limits :=
    Step.tooDeepAll_bare limits.maxDepth 1 none 0 w.steps
  have hcount : w.bare.tooManySteps limits = w.tooManySteps limits := by
    rw [tooManySteps, tooManySteps, stepCount_bare]
  have hnames : w.bare.duplicateNames = w.duplicateNames := by
    rw [duplicateNames_eq, duplicateNames_eq, collisions_bare]
  have hcodes : ∀ i ∈ w.tooDeep limits ++ w.tooManySteps limits ++
      (if policy = .reject then w.duplicateNames else []), i.code ≠ "W003" := by
    intro i hi hcode
    have hmem := code_mem_of_mem_front hi
    rw [hcode] at hmem
    exact absurd hmem (by decide)
  rw [validate, validate, hdepth, hcount, hnames, lint_bare, List.filter_append,
    Issue.filter_code_ne hcodes]

/-- A bare workflow is emitted as it was. -/
theorem emit_bare : w.bare.emit = w.emit := by
  have hvisit (v : Visit) (y : Int) : v.bare.emit none y = v.emit none y := by
    rw [Visit.emit, Visit.emit, Visit.bare, Step.emit, Step.emit, Step.displayName_bare,
      Step.kind_bare, Step.config_bare]
    rfl
  have hvisits (y : Nat → Int) : w.bare.visits.mapIdx (fun i v => v.emit none (y i)) =
      w.visits.mapIdx fun i v => v.emit none (y i) := by
    refine List.ext_getElem? fun i => ?_
    simp only [visits_bare, List.getElem?_mapIdx, List.getElem?_map, Option.map_map,
      Function.comp_def, hvisit]
  cases htrigger : w.trigger with
  | some t => rw [emit_of_trigger htrigger, emit_of_trigger (w := w.bare) htrigger, hvisits]
  | none => rw [emit_of_no_trigger htrigger, emit_of_no_trigger (w := w.bare) htrigger, hvisits]

theorem lower_bare (policy : CollisionPolicy) (ids : Nat → Uuid) :
    w.bare.lower policy ids = w.lower policy ids := by
  rw [lower, lower, emit_bare]
  rfl

end Workflow

end Flowline
