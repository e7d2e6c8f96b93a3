import Flowline.Proofs.Validation.Severity

/-!
# What validation reports, and where

A validation can be read off the visits of a workflow. A branch that is too deep is reported at the
visit one level below the limit, since the walk stops there. A name is reported at every visit with
an earlier use of it, together with the first of these uses. So nothing is fatal just if the levels
and the steps are within their limits and, where the policy asks for it, no two nodes are emitted
with one name.
-/

namespace Flowline

/-- The level that a visited step stands on. The outermost siblings stand on the first. -/
def Visit.level (v : Visit) : Nat := v.above.length + 1

/-! ## Levels -/

namespace Step

/-- Everything below some containers stands on a level of its own or deeper. -/
theorem lt_level_of_mem_visitsAll {above : List Nat} {index : Nat} {ss : List Step} {v : Visit}
    (h : v ∈ visitsAll above index ss) : above.length < v.level := by
  induction ss using siblings_induction generalizing above index with
  | nil => cases h
  | cons s ss below rest =>
    rw [visitsAll_cons, List.mem_cons, List.mem_append] at h
    rcases h with rfl | inner | later
    · exact Nat.lt_succ_self _
    · have hinner := below inner
      rw [List.length_append, List.length_singleton] at hinner
      exact Nat.lt_of_succ_lt hinner
    · exact rest later

/-- The visits on a level are not among those that stand deeper. -/
theorem filter_level_eq_nil {above : List Nat} {index level : Nat} {ss : List Step}
    (h : level ≤ above.length) :
    (visitsAll above index ss).filter (fun v => v.level = level) = [] := by
  refine List.filter_eq_nil_iff.mpr fun v hv hlevel => ?_
  have hdeeper := lt_level_of_mem_visitsAll hv
  have hsame : v.level = level := of_decide_eq_true hlevel
  omega

/-- Branches are reported at the visits one level below the limit. -/
theorem tooDeepAll_eq {limit : Nat} {above : List Nat} (h : above.length ≤ limit) (index : Nat)
    (ss : List Step) :
    tooDeepAll limit (above.length + 1) (pathBelow none above) index ss =
      ((visitsAll above index ss).filter fun v => v.level = limit + 1).map
        fun v => .tooDeep (limit + 1) limit v.path := by
  induction ss using siblings_induction generalizing above index with
  | nil => rfl
  | cons s ss below rest =>
    rw [tooDeepAll_cons, visitsAll_cons, List.filter_cons, List.filter_append, rest h]
    by_cases hlast : above.length = limit
    · -- The step itself is reported, and the steps below it are deeper than any report.
      have hreported : (Visit.mk s index above).level = limit + 1 := by rw [Visit.level, hlast]
      have hbelow : (visitsAll (above ++ [index]) 0 s.children).filter
          (fun v => v.level = limit + 1) = [] := by
        refine filter_level_eq_nil ?_
        rw [List.length_append, List.length_singleton]
        exact Nat.succ_le_succ (Nat.le_of_eq hlast.symm)
      rw [if_pos (by omega), if_pos (decide_eq_true hreported), hbelow, List.nil_append,
        List.map_cons, hlast]
      exact List.singleton_append
    · have hpassed : ¬(Visit.mk s index above).level = limit + 1 :=
        fun hlevel => hlast (Nat.succ.inj hlevel)
      have hmore : (above ++ [index]).length ≤ limit := by
        rw [List.length_append, List.length_singleton]
        omega
      have hbelow := below hmore 0
      rw [pathBelow_append_singleton, List.length_append, List.length_singleton] at hbelow
      rw [if_neg (by omega), if_neg (by rwa [decide_eq_true_iff]), hbelow, List.map_append]

end Step

/-! ## Names -/

/-- The collisions of visits, each found at a position by looking through the uses in front. -/
theorem collisions_eq (used : Step.Seen) (vs : List Visit) :
    collisions used vs = vs.zipIdx.filterMap fun p =>
      ((used ++ (vs.take p.2).map Visit.use).lookup p.1.name).map
        fun first => ⟨p.1.name, first, p.1.path⟩ := by
  induction vs generalizing used with
  | nil => rfl
  | cons v vs ih =>
    have hlater : vs.zipIdx.filterMap (fun p =>
        ((used ++ [v.use] ++ (vs.take p.2).map Visit.use).lookup p.1.name).map
          fun first => (⟨p.1.name, first, p.1.path⟩ : Collision)) =
        (vs.zipIdx 1).filterMap fun p =>
          ((used ++ ((v :: vs).take p.2).map Visit.use).lookup p.1.name).map
            fun first => ⟨p.1.name, first, p.1.path⟩ := by
      rw [List.zipIdx_succ, List.filterMap_map]
      simp only [Function.comp_def, List.take_succ_cons, List.map_cons, List.append_assoc,
        List.singleton_append]
    rw [collisions, ih, hlater, List.zipIdx_cons, List.filterMap_cons, List.take_zero,
      List.map_nil, List.append_nil]
    cases used.lookup v.name <;> rfl

namespace Workflow

variable (w : Workflow)

/-- The uses of names in front of the visit at a position: the trigger is the first to use one. -/
def usesBefore (position : Nat) : Step.Seen :=
  (if w.trigger.isSome then [(triggerName, none)] else []) ++
    (w.visits.take position).map Visit.use

theorem duplicateNames_eq_filterMap :
    w.duplicateNames = w.visits.zipIdx.filterMap fun p =>
      ((w.usesBefore p.2).lookup p.1.name).map
        fun first => .duplicateName p.1.name first p.1.path := by
  rw [duplicateNames_eq, collisions, collisions_eq, List.map_filterMap]
  simp only [Option.map_map]
  rfl

theorem collisions_eq_nil_iff : w.collisions = [] ↔ (w.emit.map Emitted.name).Nodup := by
  rw [← List.map_eq_nil_iff (f := Collision.reuse), ← reusedNames_emit, reusedNames_eq_nil_iff]
  exact and_iff_left fun e _ => rfl

/-! ## The whole validation -/

theorem tooDeep_eq (limits : Limits) :
    w.tooDeep limits = (w.visits.filter fun v => v.level = limits.maxDepth + 1).map
      fun v => .tooDeep (limits.maxDepth + 1) limits.maxDepth v.path := by
  have hfirst : ([] : List Nat).length ≤ limits.maxDepth := Nat.zero_le _
  exact Step.tooDeepAll_eq hfirst 0 w.steps

theorem mem_tooDeep_of_code {w : Workflow} {limits : Limits} {policy : CollisionPolicy} {i : Issue}
    (h : i ∈ w.validate limits policy) (hcode : i.code = "V001") : i ∈ w.tooDeep limits := by
  rw [validate, List.mem_append, List.mem_append, List.mem_append] at h
  rcases h with ((hdepth | hcount) | hnames) | hlint
  · exact hdepth
  · rw [code_of_mem_tooManySteps hcount] at hcode
    exact absurd hcode (by decide)
  · split at hnames
    · rw [code_of_mem_duplicateNames hnames] at hcode
      exact absurd hcode (by decide)
    · cases hnames
  · exact absurd hcode (Issue.code_ne_of_isWarning (isWarning_of_mem_lint hlint) (by decide))

/-- Depth is reported just if the limit is exceeded, and not merely reached. -/
theorem exists_code_tooDeep_iff (limits : Limits) (policy : CollisionPolicy) :
    (∃ i ∈ w.validate limits policy, i.code = "V001") ↔ limits.maxDepth < w.depth := by
  have hnone := w.tooDeep_eq_nil_iff limits
  constructor
  · rintro ⟨i, hi, hcode⟩
    have hmem := mem_tooDeep_of_code hi hcode
    refine Nat.lt_of_not_le fun hdepth => ?_
    rw [hnone.mpr hdepth] at hmem
    cases hmem
  · intro hdepth
    obtain ⟨i, hi⟩ := List.exists_mem_of_ne_nil _ (mt hnone.mp (Nat.not_le_of_lt hdepth))
    exact ⟨i, by simp [validate, hi], code_of_mem_tooDeep hi⟩

theorem anyFatal_validate_iff (limits : Limits) (policy : CollisionPolicy) :
    Issue.anyFatal (w.validate limits policy) = true ↔
      limits.maxDepth < w.depth ∨ limits.maxSteps < w.stepCount ∨
        policy = .reject ∧ ¬(w.emit.map Emitted.name).Nodup := by
  rw [← Bool.not_eq_false, anyFatal_validate_eq_false_iff, collisions_eq_nil_iff,
    Classical.not_and_iff_not_or_not, Classical.not_and_iff_not_or_not, Nat.not_le, Nat.not_le,
    Classical.not_imp]

/-- What a caller is told by a validation. -/
theorem map_diagnostic_validate (limits : Limits) (policy : CollisionPolicy) :
    (w.validate limits policy).map Issue.diagnostic =
      (w.visits.filter fun v => v.level = limits.maxDepth + 1).map
        (fun v => ⟨"V001", .validate, "Step nesting depth " ++ toString (limits.maxDepth + 1) ++
          " exceeds the limit of " ++ toString limits.maxDepth, some v.path⟩) ++
      (if limits.maxSteps < w.stepCount then
        [⟨"V002", .validate, "Workflow has " ++ toString w.stepCount ++ " steps, limit is " ++
          toString limits.maxSteps, none⟩]
        else []) ++
      (if policy = .reject then w.collisions.map Collision.validated else []) ++
      w.lint.map Issue.diagnostic := by
  have hnames : w.duplicateNames.map Issue.diagnostic = w.collisions.map Collision.validated := by
    rw [duplicateNames_eq, List.map_map]
    exact List.map_congr_left fun c _ => c.diagnostic_duplicate
  rw [validate, List.map_append, List.map_append, List.map_append, tooDeep_eq, List.map_map,
    tooManySteps, apply_ite (List.map Issue.diagnostic), apply_ite (List.map Issue.diagnostic),
    hnames]
  rfl

/-- What a validation reports, in order: the visits one level below the limit; the number of steps,
if there are too many; under the policy that rejects them, the visits whose names were used before,
each with the first of these uses; and the questionable places. So depth is reported just if the
limit is exceeded, and a validation is fatal just if a limit is exceeded, or two nodes are emitted
with one name and the policy rejects that. What a caller is told follows the same order. -/
theorem validation_reports_in_order (limits : Limits) (policy : CollisionPolicy) :
    w.validate limits policy =
        (w.visits.filter fun v => v.level = limits.maxDepth + 1).map
          (fun v => .tooDeep (limits.maxDepth + 1) limits.maxDepth v.path) ++
        (if limits.maxSteps < w.stepCount then [.tooManySteps w.stepCount limits.maxSteps]
          else []) ++
        (if policy = .reject then
          w.visits.zipIdx.filterMap fun p => ((w.usesBefore p.2).lookup p.1.name).map
            fun first => .duplicateName p.1.name first p.1.path
          else []) ++
        w.lint ∧
      ((∃ d ∈ (w.validate limits policy).map Issue.diagnostic, d.code = "V001") ↔
        limits.maxDepth < w.depth) ∧
      (Issue.anyFatal (w.validate limits policy) = true ↔
        limits.maxDepth < w.depth ∨ limits.maxSteps < w.stepCount ∨
          policy = .reject ∧ ¬(w.emit.map Emitted.name).Nodup) ∧
      (w.validate limits policy).map Issue.diagnostic =
        (w.visits.filter fun v => v.level = limits.maxDepth + 1).map
          (fun v => ⟨"V001", .validate, "Step nesting depth " ++ toString (limits.maxDepth + 1) ++
            " exceeds the limit of " ++ toString limits.maxDepth, some v.path⟩) ++
        (if limits.maxSteps < w.stepCount then
          [⟨"V002", .validate, "Workflow has " ++ toString w.stepCount ++ " steps, limit is " ++
            toString limits.maxSteps, none⟩]
          else []) ++
        (if policy = .reject then w.collisions.map Collision.validated else []) ++
        w.lint.map Issue.diagnostic := by
  refine ⟨?_, ?_, w.anyFatal_validate_iff limits policy, w.map_diagnostic_validate limits policy⟩
  · rw [validate, tooDeep_eq, tooManySteps, duplicateNames_eq_filterMap]
  · rw [← w.exists_code_tooDeep_iff limits policy]
    constructor
    · rintro ⟨d, hd, hcode⟩
      obtain ⟨i, hi, rfl⟩ := List.mem_map.mp hd
      exact ⟨i, hi, hcode⟩
    · rintro ⟨i, hi, hcode⟩
      exact ⟨i.diagnostic, List.mem_map_of_mem hi, hcode⟩

example :
    let w : Workflow := {
      steps := [
        { kind := .subWorkflow, name := some "A", steps := [{ kind := .email, name := some "A" }] },
        { kind := .other "" }] }
    (w.validate { maxDepth := 1, maxSteps := 2 } .reject).map Issue.diagnostic = [
      ⟨"V001", .validate, "Step nesting depth 2 exceeds the limit of 1", some "1.1"⟩,
      ⟨"V002", .validate, "Workflow has 3 steps, limit is 2", none⟩,
      ⟨"V003", .validate, "Duplicate node name 'A' (first used at step 1)", some "1.1"⟩,
      ⟨"W001", .validate, "Step 'Step 2' has no type, treated as a no-op", some "2"⟩] := by
  decide

end Workflow

end Flowline
