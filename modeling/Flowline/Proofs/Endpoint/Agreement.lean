import Flowline.Endpoint
import Flowline.Proofs.Graph.Identities
import Flowline.Proofs.Validation.Severity

/-!
# Agreement of the entry points

A host that validates a text knows what comes of lowering it. Whatever the policy, lowering fails
with just those issues that validation told and that are fatal under the policy, and without such
an issue it gives the graph of the text. So the collisions that lowering itself looks for are never
told: validation has found them before.
-/

namespace Flowline

namespace Workflow

theorem code_of_parse {text : String} {i : Issue} (h : parse text = .error i) :
    i.code = "P001" ∨ i.code = "P003" := by
  unfold parse at h
  split at h
  · rename_i j hread
    cases j with
    | object ms => cases h
    | _ => exact .inr (by rw [← Except.error.inj h]; rfl)
  · rw [← Except.error.inj h]
    exact .inl rfl

end Workflow

namespace Endpoint

/-- What validation tells about a text that prevents lowering it. That is what is no warning, and if
names may be used twice, does not tell of such a name either. -/
def obstacles (text : String) (allowDuplicateNames : Bool) : List Issue :=
  (validate text).filter fun i =>
    !i.diagnostic.isWarning && !(allowDuplicateNames && i.diagnostic.code = "V003")

variable {text : String}

theorem obstacles_of_error {i : Issue} (h : Workflow.parse text = .error i) (allow : Bool) :
    obstacles text allow = [i] := by
  have hkept : !i.diagnostic.isWarning && !(allow && i.diagnostic.code = "V003") := by
    rcases Workflow.code_of_parse h with hcode | hcode <;>
      simp [Diagnostic.isWarning, hcode]
  rw [obstacles, validate, h]
  exact List.filter_eq_self.mpr (List.forall_mem_singleton.mpr hkept)

theorem obstacles_of_ok {w : Workflow} (h : Workflow.parse text = .ok w) (allow : Bool) :
    obstacles text allow =
      Issue.fatal (w.validate {} (if allow then .overwrite else .reject)) := by
  rw [obstacles, validate, h]
  simp only [Issue.isWarning_diagnostic]
  cases allow with
  | false => simp [Issue.fatal]
  | true =>
    rw [if_pos rfl, Workflow.validate_overwrite, Issue.fatal, List.filter_filter]
    refine List.filter_congr fun i _ => ?_
    by_cases hcode : i.code = "V003" <;> simp [hcode]

theorem code_ne_of_mem_validate {i : Issue} (h : i ∈ validate text) : i.code ≠ "L001" := by
  rw [validate] at h
  cases hparse : Workflow.parse text with
  | ok w =>
    rw [hparse] at h
    exact Workflow.code_ne_of_mem_validate h
  | error j =>
    rw [hparse] at h
    obtain rfl := List.mem_singleton.mp h
    rcases Workflow.code_of_parse hparse with hcode | hcode <;> rw [hcode] <;> decide

/-- Lowering a text fails with its obstacles. Without any, it gives the graph that the text is
lowered to without a validation. -/
theorem lower_eq (text : String) (allow : Bool) (ids : Nat → Uuid) :
    lower text allow ids =
      if obstacles text allow = [] then
        (Workflow.lowerText text (if allow then .overwrite else .reject) ids).outcome
      else .error (obstacles text allow) := by
  rw [lower, Workflow.lowerText]
  cases hparse : Workflow.parse text with
  | error i => rw [obstacles_of_error hparse, if_neg (List.cons_ne_nil _ _)]
  | ok w =>
    rw [obstacles_of_ok hparse]
    dsimp only [Workflow.lowerRead]
    split
    · rename_i hfatal
      rw [if_pos hfatal]
    · rename_i hfatal
      rw [if_neg hfatal]

/-- A text without obstacles is lowered. -/
theorem lower_of_obstacles_eq_nil {allow : Bool} (h : obstacles text allow = [])
    (ids : Nat → Uuid) :
    ∃ w, Workflow.parse text = .ok w ∧ lower text allow ids = .ok (w.graph ids) := by
  cases hparse : Workflow.parse text with
  | error i =>
    rw [obstacles_of_error hparse] at h
    cases h
  | ok w =>
    refine ⟨w, rfl, ?_⟩
    rw [lower_eq, if_pos h, Workflow.lowerText, hparse]
    rw [obstacles_of_ok hparse, Issue.fatal_eq_nil_iff] at h
    exact Workflow.lower_of_validate h ids

/-- What a host is told when it validates a text and when it lowers it agrees. Lowering gives a
graph just if validation tells of no obstacle, and the graph is then the one of the library under
the same policy, up to its identities. If there are obstacles, it is these that lowering gives, in
the order of the validation. Neither answer has the code of a collision found while lowering. -/
theorem validate_and_lower_agree (text : String) (allow : Bool) (ids : Nat → Uuid) :
    (obstacles text allow = [] → ∃ g, lower text allow ids = .ok g ∧ ∀ ids',
      (Workflow.lowerText text (if allow then .overwrite else .reject) ids').outcome =
        .ok (g.identify ids')) ∧
      (obstacles text allow ≠ [] → lower text allow ids = .error (obstacles text allow)) ∧
      (∀ i ∈ validate text, i.diagnostic.code ≠ "L001") ∧
      ∀ issues, lower text allow ids = .error issues → ∀ i ∈ issues,
        i.diagnostic.code ≠ "L001" := by
  have hfailure (h : obstacles text allow ≠ []) :
      lower text allow ids = .error (obstacles text allow) := by
    rw [lower_eq, if_neg h]
  refine ⟨fun h => ?_, hfailure, fun i hi => code_ne_of_mem_validate hi, ?_⟩
  · obtain ⟨w, hparse, hlower⟩ := lower_of_obstacles_eq_nil h ids
    refine ⟨w.graph ids, hlower, fun ids' => ?_⟩
    rw [lower_eq, if_pos h, Workflow.lowerText, hparse, Workflow.lowerRead] at hlower
    rw [Workflow.lowerText, hparse, Workflow.lowerRead, Workflow.lower_identify w _ ids, hlower]
    rfl
  · intro issues hissues i hi
    by_cases h : obstacles text allow = []
    · obtain ⟨w, -, hlower⟩ := lower_of_obstacles_eq_nil h ids
      rw [hlower] at hissues
      cases hissues
    · rw [hfailure h] at hissues
      obtain rfl := Except.error.inj hissues
      exact code_ne_of_mem_validate (List.mem_filter.mp hi).1

end Endpoint

end Flowline
