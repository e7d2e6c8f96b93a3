import Flowline.Proofs.Command.Effects
import Flowline.Proofs.Workflow.Printing

/-!
# Checking before lowering

A workflow that is lowered has to be read and validated first, as when it is checked. What is fatal
in lowering is fatal in validation, so nothing else prevents lowering but the environment, which may
fail to take the document; and this cannot happen if the document is printed.
-/

namespace Flowline

namespace Command

/-- The policy that a workflow is lowered under. -/
def policyOf (c : Config) (allowDuplicateNames : Bool) : CollisionPolicy :=
  if allowDuplicateNames then .overwrite else c.lowering.onNameCollision

/-- A configuration and a workflow that can be read, where validation finds nothing fatal. -/
structure Environment.Passes (env : Environment) (config : Option String) (file : String)
    (allowDuplicateNames : Bool) (c : Config) (w : Workflow) : Prop where
  config : env.config? config = some c
  workflow : env.workflow? file = some w
  valid : Issue.anyFatal (w.validate c.limits (policyOf c allowDuplicateNames)) = false

variable {env : Environment} {config : Option String} {verbose : Bool} {file : String}
  {output : Option String} {toStdout allow : Bool} {c : Config} {w : Workflow}

/-- The effects of putting the graph of a workflow where it is asked for. -/
def exported (env : Environment) (w : Workflow) (output : Option String) (toStdout : Bool) :
    Effects :=
  let text := (w.graph env.identities).toJson.pretty
  if toStdout then { exit := 0, stdout := text ++ "\n" }
  else
    let path := output.getD (exportFile w)
    match env.write path text with
    | .error _ => .failure
    | .ok _ => { exit := 0, written := [(path, text)] }

theorem exported_stdout (env : Environment) (w : Workflow) (output : Option String) :
    exported env w output true =
      { exit := 0, stdout := (w.graph env.identities).toJson.pretty ++ "\n" } := by
  rw [exported, if_pos rfl]

theorem exported_eq_failure (h : (exported env w output toStdout).exit ≠ 0) :
    exported env w output toStdout = .failure := by
  unfold exported at h ⊢
  dsimp only at h ⊢
  split at h
  · exact absurd rfl h
  · rename_i hfile
    rw [if_neg hfile]
    split at h
    · rfl
    · exact absurd rfl h

/-! ## What commands do -/

theorem quiet_lower (c : Config) (h : env.workflow? file = some w) :
    ((lower c file output toStdout allow).within env).quiet =
      if Issue.anyFatal (w.validate c.limits (policyOf c allow)) then .failure
      else exported env w output toStdout := by
  rw [lower, quiet_readWorkflow, h]
  dsimp only
  rw [quiet_report, ← policyOf]
  cases hfatal : Issue.anyFatal (w.validate c.limits (policyOf c allow)) with
  | true => rw [if_pos rfl, if_pos rfl, quiet_fail]
  | false =>
    rw [if_neg Bool.false_ne_true, if_neg Bool.false_ne_true, Program.within,
      Workflow.lower_of_validate hfatal env.identities]
    cases toStdout with
    | true =>
      dsimp only
      rw [if_pos rfl, Program.within, Program.within, exported, if_pos rfl]
      simp only [Effects.quiet, String.append_empty]
    | false =>
      dsimp only
      rw [if_neg Bool.false_ne_true, Program.within, exported, if_neg Bool.false_ne_true]
      dsimp only
      cases env.write (output.getD (exportFile w)) (w.graph env.identities).toJson.pretty with
      | error cause => rfl
      | ok _ => rfl

theorem lower_of_passes (h : env.Passes config file allow c w) :
    ((invoke ⟨config, verbose, .lower file output toStdout allow⟩).within env).quiet =
      exported env w output toStdout := by
  rw [invoke, quiet_readConfig, h.config]
  dsimp only
  rw [quiet_lower c h.workflow, h.valid]
  rfl

theorem lower_of_not_passes (h : ¬∃ c w, env.Passes config file allow c w) :
    ((invoke ⟨config, verbose, .lower file output toStdout allow⟩).within env).quiet =
      .failure := by
  rw [invoke, quiet_readConfig]
  cases hconfig : env.config? config with
  | none => rfl
  | some c =>
    dsimp only
    cases hworkflow : env.workflow? file with
    | none => rw [lower, quiet_readWorkflow, hworkflow]
    | some w =>
      rw [quiet_lower c hworkflow, if_pos]
      exact Bool.of_not_eq_false fun hvalid => h ⟨c, w, hconfig, hworkflow, hvalid⟩

theorem exit_check (c : Config) (h : env.workflow? file = some w) :
    ((check c file).within env).quiet.exit =
      if Issue.anyFatal (w.validate c.limits (policyOf c false)) then 1 else 0 := by
  have hpolicy : policyOf c false = c.lowering.onNameCollision := rfl
  rw [check, quiet_readWorkflow, h, hpolicy]
  dsimp only
  split
  · rename_i hnone
    rw [hnone]
    rfl
  · rw [quiet_report]
    split
    · rw [quiet_fail]
      rfl
    · rfl

/-- A workflow is checked with success just if it passes. -/
theorem exit_invoke_check_iff :
    ((invoke ⟨config, verbose, .check file⟩).within env).exit = 0 ↔
      ∃ c w, env.Passes config file false c w := by
  rw [← Effects.exit_quiet, invoke, quiet_readConfig]
  constructor
  · intro hexit
    cases hconfig : env.config? config with
    | none =>
      rw [hconfig] at hexit
      cases hexit
    | some c =>
      rw [hconfig] at hexit
      dsimp only at hexit
      cases hworkflow : env.workflow? file with
      | none =>
        rw [check, quiet_readWorkflow, hworkflow] at hexit
        cases hexit
      | some w =>
        rw [exit_check c hworkflow] at hexit
        refine ⟨c, w, hconfig, hworkflow, Bool.of_not_eq_true fun hfatal => ?_⟩
        rw [if_pos hfatal] at hexit
        cases hexit
  · rintro ⟨c, w, h⟩
    rw [h.config]
    dsimp only
    rw [exit_check c h.workflow, h.valid]
    rfl

/-! ## Prediction -/

/-- Under a policy that allows names to be used twice, only the limits count. -/
theorem passes_true_iff :
    env.Passes config file true c w ↔ env.config? config = some c ∧ env.workflow? file = some w ∧
      w.depth ≤ c.limits.maxDepth ∧ w.stepCount ≤ c.limits.maxSteps := by
  have hvalid : Issue.anyFatal (w.validate c.limits (policyOf c true)) = false ↔
      w.depth ≤ c.limits.maxDepth ∧ w.stepCount ≤ c.limits.maxSteps := by
    rw [Workflow.anyFatal_validate_eq_false_iff]
    simp [policyOf]
  rw [← hvalid]
  exact ⟨fun h => ⟨h.config, h.workflow, h.valid⟩, fun h => ⟨h.1, h.2.1, h.2.2⟩⟩

/-- What is printed is lowered with success just if it passes. -/
theorem exit_invoke_lower_iff :
    ((invoke ⟨config, verbose, .lower file output true allow⟩).within env).exit = 0 ↔
      ∃ c w, env.Passes config file allow c w := by
  rw [← Effects.exit_quiet]
  constructor
  · intro hexit
    by_cases h : ∃ c w, env.Passes config file allow c w
    · exact h
    · rw [lower_of_not_passes h] at hexit
      cases hexit
  · rintro ⟨c, w, h⟩
    rw [lower_of_passes h]
    rfl

/-- Lowering does nothing but succeed or fail with nothing done. -/
theorem quiet_eq_failure
    (h : ((invoke ⟨config, verbose, .lower file output toStdout allow⟩).within env).exit ≠ 0) :
    ((invoke ⟨config, verbose, .lower file output toStdout allow⟩).within env).quiet =
      .failure := by
  by_cases hpasses : ∃ c w, env.Passes config file allow c w
  · obtain ⟨c, w, hpasses⟩ := hpasses
    rw [← Effects.exit_quiet, lower_of_passes hpasses] at h
    rw [lower_of_passes hpasses]
    exact exported_eq_failure h
  · exact lower_of_not_passes hpasses

theorem ofArguments_of_parse {args : List String} {i : Invocation}
    (h : parseArguments args = .ok i) : Program.ofArguments args = invoke i := by
  rw [Program.ofArguments, h]

/-- Under one configuration, a workflow is lowered with success to where it is printed just if it is
checked with success, and if names may be used twice, just if it can be read and keeps within the
limits. A command that fails prints nothing and writes nothing, wherever its document should have
gone, and it always fails if the workflow cannot be read or does not pass validation. What is
printed with success is the document of the graph that the workflow is lowered to, on lines that
end. Behind a validation that passes, lowering itself never fails. -/
theorem check_predicts_lower {checking lowering : List String} {verbose' : Bool}
    (hcheck : parseArguments checking = .ok ⟨config, verbose', .check file⟩)
    (hlower : parseArguments lowering =
      .ok ⟨config, verbose, .lower file output toStdout allow⟩) (env : Environment) :
    let checked := (Program.ofArguments checking).within env
    let lowered := (Program.ofArguments lowering).within env
    (toStdout = true → allow = false → (lowered.exit = 0 ↔ checked.exit = 0)) ∧
      (toStdout = true → allow = true → (lowered.exit = 0 ↔
        ∃ c w, env.config? config = some c ∧ env.workflow? file = some w ∧
          w.depth ≤ c.limits.maxDepth ∧ w.stepCount ≤ c.limits.maxSteps)) ∧
      (lowered.exit ≠ 0 → lowered.stdout = "" ∧ lowered.written = []) ∧
      ((¬∃ c w, env.Passes config file allow c w) → lowered.exit ≠ 0) ∧
      (toStdout = true → lowered.exit = 0 → ∃ c w, env.Passes config file allow c w ∧
        lowered.written = [] ∧ ∀ ids, ∃ g, (w.lower (policyOf c allow) ids).outcome = .ok g ∧
          lowered.stdout = (g.identify env.identities).toJson.pretty ++ "\n") ∧
      ∀ (c : Config) (w : Workflow) (ids : Nat → Uuid),
        Issue.anyFatal (w.validate c.limits (policyOf c allow)) = false →
        ∃ g, (w.lower (policyOf c allow) ids).outcome = .ok g := by
  intro checked lowered
  have hchecked : checked = (invoke ⟨config, verbose', .check file⟩).within env := by
    rw [← ofArguments_of_parse hcheck]
  have hlowered : lowered =
      (invoke ⟨config, verbose, .lower file output toStdout allow⟩).within env := by
    rw [← ofArguments_of_parse hlower]
  rw [hchecked, hlowered]
  refine ⟨?_, ?_, ?_, ?_, ?_, ?_⟩
  · rintro rfl rfl
    rw [exit_invoke_lower_iff, exit_invoke_check_iff]
  · rintro rfl rfl
    rw [exit_invoke_lower_iff]
    simp only [passes_true_iff]
  · intro hexit
    have hquiet := quiet_eq_failure hexit
    rw [← Effects.stdout_quiet, ← Effects.written_quiet, hquiet]
    exact ⟨rfl, rfl⟩
  · intro hnot
    rw [← Effects.exit_quiet, lower_of_not_passes hnot]
    exact Nat.one_ne_zero
  · rintro rfl hexit
    obtain ⟨c, w, hpasses⟩ := exit_invoke_lower_iff.mp hexit
    rw [← Effects.stdout_quiet, ← Effects.written_quiet, lower_of_passes hpasses, exported_stdout]
    refine ⟨c, w, hpasses, rfl, fun ids => ?_⟩
    refine ⟨w.graph ids, Workflow.lower_of_validate hpasses.valid ids, ?_⟩
    rw [Workflow.identify_graph]
  · intro c w ids hvalid
    exact ⟨w.graph ids, Workflow.lower_of_validate hvalid ids⟩

end Command

namespace Workflow

/-- Two steps without names, each the first on its level, have the same name. -/
theorem collisions_tower : (ofMembers (tower 2)).collisions ≠ [] := by
  have hsteps : (ofMembers (tower 2)).steps = Step.ofMembers (tower 2) := rfl
  have htrigger : (ofMembers (tower 2)).trigger = none := rfl
  simp [collisions, visits, hsteps, htrigger, steps_tower, Step.visitsAll, Step.visits,
    Flowline.collisions, Visit.name, Visit.use, Step.displayName]

end Workflow

namespace Command

/-- A workflow that neither command passes, unless names may be used twice. -/
theorem check_predicts_lower_tower :
    let env : Environment := {
      read := fun _ => .ok (Workflow.towerText 2)
      write := fun _ _ => .ok ()
      identities := fun _ => .ofSeed 0
      time := "12:00:00" }
    ((Program.ofArguments ["check", "flow.json"]).within env).exit ≠ 0 ∧
      ((Program.ofArguments ["lower", "flow.json", "--stdout"]).within env).stdout = "" ∧
      ((Program.ofArguments
        ["lower", "flow.json", "--stdout", "--allow-duplicate-names"]).within env).exit = 0 := by
  intro env
  have hworkflow : env.workflow? "flow.json" =
      some (Workflow.ofMembers (Workflow.tower 2)) := by
    have hparse := Workflow.parse_towerText (n := 2) (by decide)
    simp [Environment.workflow?, env, hparse, Except.toOption]
  have hnot : ¬∃ c w, env.Passes none "flow.json" false c w := by
    rintro ⟨c, w, hconfig, hpasses, hvalid⟩
    obtain rfl := Option.some.inj hconfig
    obtain rfl := Option.some.inj (hworkflow.symm.trans hpasses)
    obtain ⟨-, -, hcollisions⟩ := (Workflow.anyFatal_validate_eq_false_iff _ _ _).mp hvalid
    exact Workflow.collisions_tower (hcollisions rfl)
  have hchecking : parseArguments ["check", "flow.json"] =
      .ok ⟨none, false, .check "flow.json"⟩ := rfl
  have hlowering : parseArguments ["lower", "flow.json", "--stdout"] =
      .ok ⟨none, false, .lower "flow.json" none true false⟩ := rfl
  have hallowing :
      parseArguments ["lower", "flow.json", "--stdout", "--allow-duplicate-names"] =
        .ok ⟨none, false, .lower "flow.json" none true true⟩ := rfl
  obtain ⟨hpredicts, -, hnothing, hfails, -⟩ := check_predicts_lower hchecking hlowering env
  obtain ⟨-, hallowed, -⟩ := check_predicts_lower hchecking hallowing env
  refine ⟨fun hexit => hfails hnot ((hpredicts rfl rfl).mpr hexit), (hnothing (hfails hnot)).1, ?_⟩
  obtain ⟨hcount, hdepth, -⟩ := Workflow.levels_tower 2
  refine (hallowed rfl rfl).mpr ⟨{}, _, rfl, hworkflow, ?_, ?_⟩
  · rw [hdepth]
    decide
  · rw [hcount]
    decide

end Command

end Flowline
