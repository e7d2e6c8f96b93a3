import Flowline.Proofs.Names.Collisions

/-!
# What is fatal

A validation is a list of three kinds of fatal issues, and of warnings behind them. The limits
decide on the first two kinds, and they hold just if the steps are neither too deep nor too many.
The policy decides on the third: under the one that allows names to be used twice, a validation is
what it is under the other one, less these names.
-/

namespace Flowline

namespace Issue

theorem fatal_eq_nil_iff {is : List Issue} : fatal is = [] ↔ anyFatal is = false := by
  rw [fatal, anyFatal, List.filter_eq_nil_iff, List.any_eq_false]

end Issue

namespace Step

/-- No branch is too deep just if no step is. Deeper than the limit, there are no levels left. -/
theorem tooDeepAll_eq_nil_iff {limit level : Nat} {parent : Option String} {index : Nat}
    {ss : List Step} :
    tooDeepAll limit level parent index ss = [] ↔ depthAll ss ≤ limit + 1 - level := by
  induction ss using siblings_induction generalizing level parent index with
  | nil => simp [tooDeepAll, depthAll]
  | cons s ss below rest =>
    rw [tooDeepAll_cons, List.append_eq_nil_iff, rest, depthAll, depth_eq]
    by_cases hlevel : limit < level
    · rw [if_pos hlevel]
      simp only [List.cons_ne_nil, false_and, false_iff]
      omega
    · rw [if_neg hlevel, below]
      omega

end Step

namespace Workflow

variable (w : Workflow) (limits : Limits)

theorem tooDeep_eq_nil_iff : w.tooDeep limits = [] ↔ w.depth ≤ limits.maxDepth :=
  Step.tooDeepAll_eq_nil_iff

theorem tooManySteps_eq_nil_iff : w.tooManySteps limits = [] ↔ w.stepCount ≤ limits.maxSteps := by
  rw [tooManySteps, ← Nat.not_lt]
  split
  · rename_i h
    exact iff_of_false (List.cons_ne_nil _ _) (not_not_intro h)
  · rename_i h
    exact iff_of_true rfl h

theorem code_of_mem_duplicateNames {w : Workflow} {i : Issue} (h : i ∈ w.duplicateNames) :
    i.code = "V003" := by
  rw [duplicateNames_eq] at h
  obtain ⟨c, -, rfl⟩ := List.mem_map.mp h
  rfl

/-- The codes of what stands in a validation in front of the questionable places. -/
theorem code_mem_of_mem_front {w : Workflow} {limits : Limits} {policy : CollisionPolicy}
    {i : Issue} (h : i ∈ w.tooDeep limits ++ w.tooManySteps limits ++
      (if policy = .reject then w.duplicateNames else [])) :
    i.code ∈ ["V001", "V002", "V003"] := by
  rw [List.mem_append, List.mem_append] at h
  rcases h with (hdepth | hcount) | hnames
  · rw [code_of_mem_tooDeep hdepth]
    decide
  · rw [code_of_mem_tooManySteps hcount]
    decide
  · split at hnames
    · rw [code_of_mem_duplicateNames hnames]
      decide
    · cases hnames

/-- The fatal issues are all but the questionable places. -/
theorem fatal_validate (policy : CollisionPolicy) :
    Issue.fatal (w.validate limits policy) =
      w.tooDeep limits ++ w.tooManySteps limits ++
        (if policy = .reject then w.duplicateNames else []) := by
  have hlint : w.lint.filter (fun i => !i.isWarning) = [] := by
    refine List.filter_eq_nil_iff.mpr fun i hi => ?_
    rw [isWarning_of_mem_lint hi]
    exact Bool.false_ne_true
  rw [validate, Issue.fatal, List.filter_append, hlint, List.append_nil, List.filter_eq_self]
  intro i hi
  have hcode := code_mem_of_mem_front hi
  have hwarning : i.isWarning = false := by
    refine Bool.of_not_eq_true fun h => ?_
    have hfatal : ∀ code ∈ ["V001", "V002", "V003"], code ∉ Issue.warningCodes := by decide
    exact hfatal _ hcode (Issue.isWarning_iff.mp h)
  rw [hwarning]
  rfl

/-- The policy that allows names to be used twice takes away the issues about these names, and
nothing else. -/
theorem validate_overwrite :
    w.validate limits .overwrite =
      (w.validate limits .reject).filter fun i => i.code ≠ "V003" := by
  have hdepth : (w.tooDeep limits).filter (fun i => i.code ≠ "V003") = w.tooDeep limits :=
    Issue.filter_code_ne fun i hi => by rw [code_of_mem_tooDeep hi]; decide
  have hcount : (w.tooManySteps limits).filter (fun i => i.code ≠ "V003") =
      w.tooManySteps limits :=
    Issue.filter_code_ne fun i hi => by rw [code_of_mem_tooManySteps hi]; decide
  have hnames : w.duplicateNames.filter (fun i => i.code ≠ "V003") = [] := by
    refine List.filter_eq_nil_iff.mpr fun i hi => ?_
    rw [code_of_mem_duplicateNames hi]
    decide
  have hlint : w.lint.filter (fun i => i.code ≠ "V003") = w.lint :=
    Issue.filter_code_ne fun i hi =>
      Issue.code_ne_of_isWarning (isWarning_of_mem_lint hi) (by decide)
  rw [validate, validate, if_pos rfl, if_neg (by decide), List.append_nil, List.filter_append,
    List.filter_append, List.filter_append, hdepth, hcount, hnames, hlint, List.append_nil]

/-- What a validation comes to. -/
theorem anyFatal_validate_eq_false_iff (policy : CollisionPolicy) :
    Issue.anyFatal (w.validate limits policy) = false ↔
      w.depth ≤ limits.maxDepth ∧ w.stepCount ≤ limits.maxSteps ∧
        (policy = .reject → w.collisions = []) := by
  rw [← Issue.fatal_eq_nil_iff, fatal_validate, List.append_eq_nil_iff, List.append_eq_nil_iff,
    tooDeep_eq_nil_iff, tooManySteps_eq_nil_iff, and_assoc]
  cases policy with
  | reject => simp [duplicateNames_eq]
  | overwrite => simp

/-- Codes of lowering do not occur in a validation. -/
theorem code_ne_of_mem_validate {w : Workflow} {limits : Limits} {policy : CollisionPolicy}
    {i : Issue} (h : i ∈ w.validate limits policy) : i.code ≠ "L001" := by
  rw [validate, List.mem_append] at h
  rcases h with hfront | hlint
  · intro hcode
    have hmem := code_mem_of_mem_front hfront
    rw [hcode] at hmem
    exact absurd hmem (by decide)
  · exact Issue.code_ne_of_isWarning (isWarning_of_mem_lint hlint) (by decide)

end Workflow

end Flowline
