import Flowline.Proofs.Lowering.Layout
import Flowline.Proofs.Validation.Codes

/-!
# Collisions of names

Validation looks for names that are used twice while it walks through the tree, and lowering looks
for them in the list of emitted nodes. Both remember the names they have seen, each name once.
`collisions` says what they find without such a memory: the visits whose name has an earlier use,
each with the first of those uses. `duplicateNames_eq` and `reusedNames_emit` say that both find
just these, and `Collision.validated` and `Collision.refused` are what they tell about them.
-/

namespace Flowline

/-- A step that takes a name which is in use: the path of the first use, which the trigger has not,
and the path of the step. -/
structure Collision where
  name : String
  first : Option String
  path : String
  deriving DecidableEq, Repr

namespace Collision

/-- The collision as validation reports it. -/
def duplicate (c : Collision) : Issue := .duplicateName c.name c.first c.path

/-- The collision as lowering reports it. -/
def reuse (c : Collision) : Issue := .reusedName c.name c.first (some c.path)

/-- What validation tells about the collision. -/
def validated (c : Collision) : Diagnostic where
  code := "V003"
  phase := .validate
  message := "Duplicate node name '" ++ c.name ++ "' (first used " ++
    c.first.elim "by the trigger" ("at step " ++ ·) ++ ")"
  stepPath := some c.path

/-- What lowering tells about the collision. -/
def refused (c : Collision) : Diagnostic where
  code := "L001"
  phase := .lower
  message := "Node name '" ++ c.name ++ "' is used more than once (first at " ++
    c.first.elim "the trigger" ("step " ++ ·) ++ "); connections are keyed by name"
  stepPath := some c.path

theorem diagnostic_duplicate (c : Collision) : c.duplicate.diagnostic = c.validated := by
  rcases c with ⟨name, first, path⟩
  cases first <;> rfl

theorem diagnostic_reuse (c : Collision) : c.reuse.diagnostic = c.refused := by
  rcases c with ⟨name, first, path⟩
  cases first <;> rfl

end Collision

/-- The use that a visited step makes of its name. -/
def Visit.use (v : Visit) : String × Option String := (v.name, some v.path)

/-- The visits whose names were used before, given all earlier uses in order. -/
def collisions : Step.Seen → List Visit → List Collision
  | _, [] => []
  | used, v :: vs =>
    ((used.lookup v.name).map fun first => ⟨v.name, first, v.path⟩).toList ++
      collisions (used ++ [v.use]) vs

theorem collisions_append (used : Step.Seen) (vs ws : List Visit) :
    collisions used (vs ++ ws) =
      collisions used vs ++ collisions (used ++ vs.map Visit.use) ws := by
  induction vs generalizing used with
  | nil => simp [collisions]
  | cons v vs ih => simp [collisions, ih, List.append_assoc]

/-! ## Memories -/

theorem lookup_cons_of_ne {β : Type} {key other : String} (h : other ≠ key) (value : β)
    (es : List (String × β)) : List.lookup other ((key, value) :: es) = es.lookup other := by
  rw [List.lookup_cons, beq_eq_false_iff_ne.mpr h]

theorem lookup_cons_eq_none_iff {β : Type} {key other : String} {value : β}
    {es : List (String × β)} :
    List.lookup other ((key, value) :: es) = none ↔ other ≠ key ∧ es.lookup other = none := by
  by_cases same : other = key
  · subst same
    simp
  · rw [lookup_cons_of_ne same]
    exact ⟨fun h => ⟨same, h⟩, fun h => h.2⟩

/-- A memory that knows the first of some uses for every name. -/
def Remembers (seen used : Step.Seen) : Prop := ∀ name, seen.lookup name = used.lookup name

namespace Remembers

variable {seen used : Step.Seen} {name : String}

theorem refl (used : Step.Seen) : Remembers used used := fun _ => rfl

/-- A later use of a name that is known does not count. -/
theorem again {first : Option String} (h : Remembers seen used) (path : String)
    (known : seen.lookup name = some first) : Remembers seen (used ++ [(name, some path)]) := by
  intro other
  rw [List.lookup_append]
  by_cases same : other = name
  · subst same
    rw [← h other, known]
    rfl
  · rw [lookup_cons_of_ne same, List.lookup_nil, Option.or_none, h other]

/-- The first use of a name has to be learnt. -/
theorem learn (h : Remembers seen used) (path : String) (new : seen.lookup name = none) :
    Remembers ((name, some path) :: seen) (used ++ [(name, some path)]) := by
  intro other
  rw [List.lookup_append]
  by_cases same : other = name
  · subst same
    rw [← h other, new, List.lookup_cons_self, List.lookup_cons_self]
    rfl
  · rw [lookup_cons_of_ne same, lookup_cons_of_ne same, List.lookup_nil, Option.or_none, h other]

end Remembers

/-! ## The walk through the tree -/

namespace Step

/-- What validation does when it meets the use of a name. -/
def meet (seen : Seen) (name path : String) : List Issue × Seen :=
  match seen.lookup name with
  | some first => ([.duplicateName name first path], seen)
  | none => ([], (name, some path) :: seen)

theorem duplicatesAll_cons (parent : Option String) (index : Nat) (seen : Seen) (s : Step)
    (ss : List Step) :
    duplicatesAll parent index seen (s :: ss) =
      let path := childPath parent index
      let here := meet seen (s.displayName index) path
      let below := duplicatesAll (some path) 0 here.2 s.children
      let rest := duplicatesAll parent (index + 1) below.2 ss
      (here.1 ++ (below.1 ++ rest.1), rest.2) := by
  rcases s with ⟨id, kind, name, config, steps⟩
  by_cases h : kind = .subWorkflow
  · subst h
    cases known : seen.lookup (displayName ⟨id, .subWorkflow, name, config, steps⟩ index) <;>
      simp [duplicatesAll, duplicates, meet, known, children, isContainer]
  · cases known : seen.lookup (displayName ⟨id, kind, name, config, steps⟩ index) <;>
      simp [duplicatesAll, duplicates, meet, known, children, isContainer, h]

theorem meet_use {seen used : Seen} (h : Remembers seen used) (v : Visit) :
    (meet seen v.name v.path).1 = (collisions used [v]).map Collision.duplicate ∧
      Remembers (meet seen v.name v.path).2 (used ++ [v.use]) := by
  rw [meet, collisions, ← h v.name]
  cases known : seen.lookup v.name with
  | some first => exact ⟨rfl, h.again v.path known⟩
  | none => exact ⟨rfl, h.learn v.path known⟩

/-- The walk finds the collisions of the visits, and remembers their uses. -/
theorem duplicatesAll_eq {seen used : Seen} (h : Remembers seen used) (above : List Nat)
    (index : Nat) (ss : List Step) :
    (duplicatesAll (pathBelow none above) index seen ss).1 =
        (collisions used (visitsAll above index ss)).map Collision.duplicate ∧
      Remembers (duplicatesAll (pathBelow none above) index seen ss).2
        (used ++ (visitsAll above index ss).map Visit.use) := by
  -- What is remembered goes from the step to the steps below it, and from there to the siblings.
  induction ss using siblings_induction generalizing above index seen used with
  | nil => simpa [duplicatesAll, collisions] using h
  | cons s ss below rest =>
    obtain ⟨hhere, hseen⟩ := meet_use h ⟨s, index, above⟩
    obtain ⟨hbelow, hseen⟩ := below hseen (above ++ [index]) 0
    obtain ⟨hrest, hseen⟩ := rest hseen above (index + 1)
    rw [pathBelow_append_singleton] at hbelow hseen hrest
    rw [duplicatesAll_cons, visitsAll_cons, ← List.singleton_append]
    constructor
    · rw [collisions_append, collisions_append, List.map_append, List.map_append, ← hhere]
      simp only [List.map_cons, List.map_nil]
      rw [← hbelow, ← hrest]
      rfl
    · rw [List.map_append, List.map_append, ← List.append_assoc, ← List.append_assoc]
      exact hseen

end Step

/-! ## The scan of emitted nodes -/

/-- The use that an emitted node makes of its name. -/
def Emitted.use (e : Emitted) : String × Option String := (e.name, e.path)

/-- The scan finds the collisions of the visits that the nodes were emitted for. -/
theorem reusedNames_eq {seen used : Step.Seen} (h : Remembers seen used) {es : List Emitted}
    {vs : List Visit} (huses : es.map Emitted.use = vs.map Visit.use) :
    reusedNames seen es = (collisions used vs).map Collision.reuse := by
  induction vs generalizing seen used es with
  | nil =>
    obtain rfl := List.map_eq_nil_iff.mp huses
    rfl
  | cons v vs ih =>
    rcases es with _ | ⟨e, es⟩
    · cases huses
    · obtain ⟨huse, hrest⟩ := List.cons.inj huses
      obtain ⟨hname, hpath⟩ : e.name = v.name ∧ e.path = some v.path := Prod.mk.inj huse
      rw [reusedNames, collisions, hname, hpath, ← h v.name]
      cases known : seen.lookup v.name with
      | some first =>
        have hlater := ih (h.again v.path known) hrest
        exact congrArg (Collision.reuse ⟨v.name, first, v.path⟩ :: ·) hlater
      | none => exact ih (h.learn v.path known) hrest

/-- The scan finds nothing just if no two nodes have the same name, and no node has a name that was
seen before. -/
theorem reusedNames_eq_nil_iff {seen : Step.Seen} {es : List Emitted} :
    reusedNames seen es = [] ↔
      (es.map Emitted.name).Nodup ∧ ∀ e ∈ es, seen.lookup e.name = none := by
  induction es generalizing seen with
  | nil => simp [reusedNames]
  | cons e es ih =>
    rw [reusedNames]
    cases known : seen.lookup e.name with
    | some first =>
      refine ⟨nofun, fun h => ?_⟩
      have hhead := h.2 e List.mem_cons_self
      rw [known] at hhead
      cases hhead
    | none =>
      rw [ih, List.map_cons, List.nodup_cons, List.forall_mem_cons]
      simp only [lookup_cons_eq_none_iff, known, true_and, List.mem_map, not_exists, not_and]
      constructor
      · rintro ⟨hnodup, hnew⟩
        exact ⟨⟨fun e' he' => (hnew e' he').1, hnodup⟩, fun e' he' => (hnew e' he').2⟩
      · rintro ⟨⟨hhead, hnodup⟩, hnew⟩
        exact ⟨hnodup, fun e' he' => ⟨hhead e' he', hnew e' he'⟩⟩

namespace Workflow

/-- The collisions of a workflow, where the trigger uses its name first. -/
def collisions (w : Workflow) : List Collision :=
  Flowline.collisions (if w.trigger.isSome then [(triggerName, none)] else []) w.visits

theorem duplicateNames_eq (w : Workflow) :
    w.duplicateNames = w.collisions.map Collision.duplicate :=
  (Step.duplicatesAll_eq (Remembers.refl _) [] 0 w.steps).1

theorem map_use_visits (vs : List Visit) (y : Nat → Int) :
    (vs.mapIdx fun i v => v.emit none (y i)).map Emitted.use = vs.map Visit.use :=
  map_emit_visits (fun _ _ => rfl) vs y

theorem reusedNames_emit (w : Workflow) :
    reusedNames [] w.emit = w.collisions.map Collision.reuse := by
  cases h : w.trigger with
  | some t =>
    rw [emit_of_trigger h, collisions, h]
    exact reusedNames_eq (Remembers.refl [(triggerName, none)]) (map_use_visits w.visits _)
  | none =>
    rw [emit_of_no_trigger h, collisions, h]
    exact reusedNames_eq (Remembers.refl []) (map_use_visits w.visits _)

/-! ## Agreement -/

theorem filter_validate_reject (w : Workflow) (limits : Limits) :
    (w.validate limits .reject).filter (fun i => i.diagnostic.code = "V003") =
      w.duplicateNames := by
  have hdepth : (w.tooDeep limits).filter (fun i => i.diagnostic.code = "V003") = [] :=
    Issue.filter_code_eq_nil fun i hi => by rw [code_of_mem_tooDeep hi]; decide
  have hcount : (w.tooManySteps limits).filter (fun i => i.diagnostic.code = "V003") = [] :=
    Issue.filter_code_eq_nil fun i hi => by rw [code_of_mem_tooManySteps hi]; decide
  have hlint : w.lint.filter (fun i => i.diagnostic.code = "V003") = [] :=
    Issue.filter_code_eq_nil fun i hi =>
      Issue.code_ne_of_isWarning (isWarning_of_mem_lint hi) (by decide)
  have hnames : w.duplicateNames.filter (fun i => i.diagnostic.code = "V003") =
      w.duplicateNames := by
    rw [duplicateNames_eq, List.filter_eq_self]
    intro i hi
    obtain ⟨c, -, rfl⟩ := List.mem_map.mp hi
    rfl
  rw [validate, if_pos rfl, List.filter_append, List.filter_append, List.filter_append, hdepth,
    hcount, hlint, hnames, List.append_nil]
  rfl

/-- A validation without fatal issues has no collisions, if the policy rejects those. -/
theorem collisions_eq_nil_of_validate {w : Workflow} {limits : Limits}
    (h : Issue.anyFatal (w.validate limits .reject) = false) : w.collisions = [] := by
  rw [Issue.anyFatal, List.any_eq_false] at h
  refine List.eq_nil_iff_forall_not_mem.mpr fun c hc => h c.duplicate ?_ rfl
  have hmem : c.duplicate ∈ w.duplicateNames := by
    rw [duplicateNames_eq]
    exact List.mem_map_of_mem hc
  simp [validate, hmem]

end Workflow

/-- The issues that lowering ends with. -/
def Lowered.issues (l : Lowered) : List Issue :=
  match l.outcome with
  | .error is => is
  | .ok _ => []

namespace Workflow

theorem issues_lower_reject (w : Workflow) (ids : Nat → Uuid) :
    (w.lower .reject ids).issues = w.collisions.map Collision.reuse := by
  rw [Lowered.issues, lower_outcome_reject]
  by_cases h : reusedNames [] w.emit = []
  · rw [if_pos h, ← reusedNames_emit, h]
  · rw [if_neg h, reusedNames_emit]

theorem lower_of_validate {w : Workflow} {limits : Limits} {policy : CollisionPolicy}
    (h : Issue.anyFatal (w.validate limits policy) = false) (ids : Nat → Uuid) :
    (w.lower policy ids).outcome = .ok (w.graph ids) := by
  cases policy with
  | overwrite => exact lower_outcome_overwrite w ids
  | reject =>
    have hnone : reusedNames [] w.emit = [] := by
      rw [reusedNames_emit, collisions_eq_nil_of_validate h]
      rfl
    rw [lower_outcome_reject, if_pos hnone]

/-- Validation and lowering report the same collisions in the same order, as issues and as the
diagnostics that a caller is given: the same step, the same name and the same first use. So a
workflow that validation passes can be lowered, and validation finds something fatal in a workflow
that cannot. -/
theorem validate_and_lower_collide (w : Workflow) (limits : Limits) (ids : Nat → Uuid) :
    (w.validate limits .reject).filter (fun i => i.diagnostic.code = "V003") =
        w.collisions.map (fun c => .duplicateName c.name c.first c.path) ∧
      (w.lower .reject ids).issues =
        w.collisions.map (fun c => .reusedName c.name c.first (some c.path)) ∧
      ((w.validate limits .reject).map Issue.diagnostic).filter (fun d => d.code = "V003") =
        w.collisions.map Collision.validated ∧
      ((w.lower .reject ids).issues.map Issue.diagnostic).filter (fun d => d.code = "L001") =
        w.collisions.map Collision.refused ∧
      ∀ policy,
        (Issue.anyFatal (w.validate limits policy) = false →
          ∃ g, (w.lower policy ids).outcome = .ok g) ∧
        ((∃ is, (w.lower policy ids).outcome = .error is) →
          Issue.anyFatal (w.validate limits policy) = true) := by
  refine ⟨?_, issues_lower_reject w ids, ?_, ?_, ?_⟩
  · exact (filter_validate_reject w limits).trans w.duplicateNames_eq
  · rw [List.filter_map, Function.comp_def, filter_validate_reject, duplicateNames_eq,
      List.map_map]
    exact List.map_congr_left fun c _ => c.diagnostic_duplicate
  · rw [issues_lower_reject, List.map_map, List.filter_eq_self.mpr]
    · exact List.map_congr_left fun c _ => c.diagnostic_reuse
    · intro d hd
      obtain ⟨c, -, rfl⟩ := List.mem_map.mp hd
      rfl
  · intro policy
    constructor
    · intro h
      exact ⟨w.graph ids, lower_of_validate h ids⟩
    · rintro ⟨is, herror⟩
      cases h : Issue.anyFatal (w.validate limits policy) with
      | true => rfl
      | false =>
        rw [lower_of_validate h ids] at herror
        cases herror

/-- Two steps without names have the same position among their siblings, and the last step has the
name of the trigger. -/
theorem validate_and_lower_collide_unnamed :
    let w : Workflow := {
      trigger := some { kind := .schedule }
      steps := [
        { kind := .subWorkflow, name := some "Outer",
          steps := [{ kind := .email }, { kind := .delay }] },
        { kind := .filter },
        { kind := .action, name := some "Trigger" }] }
    w.collisions = [⟨"Step 2", some "1.2", "2"⟩, ⟨"Trigger", none, "3"⟩] ∧
      ((w.validate {} .reject).map Issue.diagnostic).filter (fun d => d.code = "V003") = [
        ⟨"V003", .validate, "Duplicate node name 'Step 2' (first used at step 1.2)", some "2"⟩,
        ⟨"V003", .validate, "Duplicate node name 'Trigger' (first used by the trigger)",
          some "3"⟩] ∧
      ((w.lower .reject .ofSeed).issues.map Issue.diagnostic).filter (fun d => d.code = "L001") = [
        ⟨"L001", .lower, "Node name 'Step 2' is used more than once (first at step 1.2); " ++
          "connections are keyed by name", some "2"⟩,
        ⟨"L001", .lower, "Node name 'Trigger' is used more than once (first at the trigger); " ++
          "connections are keyed by name", some "3"⟩] ∧
      Issue.anyFatal (w.validate {} .reject) = true := by
  intro w
  have hcollisions : w.collisions = [⟨"Step 2", some "1.2", "2"⟩, ⟨"Trigger", none, "3"⟩] := by
    decide
  have herror : (w.lower .reject .ofSeed).outcome = .error (w.collisions.map Collision.reuse) := by
    rw [lower_outcome_reject, reusedNames_emit, if_neg (by rw [hcollisions]; decide)]
  obtain ⟨-, -, hvalidated, hrefused, hfatal⟩ := validate_and_lower_collide w {} .ofSeed
  rw [hcollisions] at hvalidated hrefused
  exact ⟨hcollisions, hvalidated, hrefused, (hfatal .reject).2 ⟨_, herror⟩⟩

end Workflow

end Flowline
