import Flowline.Proofs.Json.Finite
import Flowline.Proofs.Workflow.Levels

/-!
# Reading workflows that were printed

A workflow that was read is printed so that it is read again, with the same steps, unless its steps
are stored on as many levels as a text can hold. In that case the text that it was read from leaves
no level for the configurations of the deepest steps. It has none there, but the printed text has
one for every step, and is refused.
-/

namespace Flowline

open Json

/-! ## Printed steps -/

namespace Step

theorem rereadMembers_append (ms ns : Members) :
    rereadMembers (ms ++ ns) = rereadMembers ms ++ rereadMembers ns := by
  simp only [rereadMembers_eq_map, List.map_append]

theorem rereadMembers_textMember (key : String) (text : Option String) :
    rereadMembers (textMember key text) = textMember key text := by
  cases text with
  | none => rfl
  | some t => rfl

mutual

/-- The step with every double in its configuration as its text is read, as in all steps stored
below it. -/
def reread : Step → Step
  | ⟨id, kind, name, config, steps⟩ => ⟨id, kind, name, rereadMembers config, rereadAll steps⟩

/-- Siblings with every double in their configurations as its text is read. -/
def rereadAll : List Step → List Step
  | [] => []
  | s :: ss => reread s :: rereadAll ss

end

mutual

theorem reread_toJson : (s : Step) → s.toJson.reread = s.reread.toJson
  | ⟨id, kind, name, config, []⟩ => by
    rw [toJson, Json.reread, reread, rereadAll, toJson]
    simp only [rereadMembers_append, rereadMembers_textMember, rereadMembers, Json.reread]
  | ⟨id, kind, name, config, s :: ss⟩ => by
    have hbelow := rereadItems_toItems (s :: ss)
    rw [toItems, rereadAll, toItems] at hbelow
    rw [toJson, Json.reread, reread, rereadAll, toJson]
    simp only [rereadMembers_append, rereadMembers_textMember, rereadMembers, Json.reread, hbelow]

theorem rereadItems_toItems : (ss : List Step) →
    rereadItems (toItems ss) = toItems (rereadAll ss)
  | [] => rfl
  | s :: ss => by
    rw [toItems, rereadItems, rereadAll, toItems, reread_toJson s, rereadItems_toItems ss]

end

mutual

theorem isNormal_reread : (s : Step) → s.IsNormal → s.reread.IsNormal
  | ⟨id, kind, name, config, steps⟩, h => by
    rw [IsNormal] at h
    rw [reread, IsNormal]
    exact ⟨h.1, h.2.1, h.2.2.1, allNormal_rereadAll steps h.2.2.2⟩

theorem allNormal_rereadAll : (ss : List Step) → AllNormal ss → AllNormal (rereadAll ss)
  | [], _ => trivial
  | s :: ss, h => ⟨isNormal_reread s h.1, allNormal_rereadAll ss h.2⟩

end

theorem rereadAll_eq_map (ss : List Step) : rereadAll ss = ss.map reread := by
  induction ss with
  | nil => rfl
  | cons s ss ih => rw [rereadAll, ih, List.map_cons]

theorem children_reread (s : Step) : s.reread.children = s.children.map reread := by
  rcases s with ⟨id, kind, name, config, steps⟩
  rw [reread]
  by_cases hkind : kind = .subWorkflow
  · simp [children, isContainer, hkind, rereadAll_eq_map]
  · simp [children, isContainer, hkind]

mutual

/-- Whatever configurations fit in, the value of a step can be held. -/
theorem regular_toJson {n : Nat} : (s : Step) → s.ConfigsFit n → s.toJson.Regular
  | ⟨id, kind, name, config, []⟩, h => by
    rw [ConfigsFit] at h
    have hconfig : (Json.object config).Regular := h.1.1
    rw [toJson, Json.Regular]
    cases id <;> cases name <;>
      simpa [textMember, Members.keys, RegularMembers, Json.Regular] using hconfig
  | ⟨id, kind, name, config, s :: ss⟩, h => by
    rw [ConfigsFit] at h
    have hconfig : (Json.object config).Regular := h.1.1
    have hbelow := regularItems_toItems (s :: ss) h.2
    rw [toItems] at hbelow
    rw [toJson, Json.Regular]
    cases id <;> cases name <;>
      simpa [textMember, Members.keys, RegularMembers, Json.Regular, hbelow] using hconfig

theorem regularItems_toItems {n : Nat} : (ss : List Step) → AllConfigsFit n ss →
    RegularItems (toItems ss)
  | [], _ => trivial
  | s :: ss, h => by
    rw [toItems]
    exact ⟨regular_toJson s h.1, regularItems_toItems ss h.2⟩

end

end Step

/-! ## Printed workflows -/

/-- The trigger with every double in its configuration as its text is read. -/
def Trigger.reread (t : Trigger) : Trigger := { t with config := rereadMembers t.config }

namespace Workflow

/-- The workflow with every double in a configuration as its text is read. -/
def reread (w : Workflow) : Workflow where
  name := w.name
  trigger := w.trigger.map Trigger.reread
  steps := Step.rereadAll w.steps

theorem stepCount_reread (w : Workflow) : w.reread.stepCount = w.stepCount := by
  rw [stepCount, reread, Step.rereadAll_eq_map, Step.countAll_map Step.children_reread, stepCount]

theorem depth_reread (w : Workflow) : w.reread.depth = w.depth := by
  rw [depth, reread, Step.rereadAll_eq_map, Step.depthAll_map Step.children_reread, depth]

theorem reread_toJson (w : Workflow) : w.toJson.reread = w.reread.toJson := by
  have hsteps := Step.rereadItems_toItems w.steps
  rcases w with ⟨name, trigger, steps⟩
  cases trigger with
  | none => simp [toJson, reread, Json.reread, rereadMembers, hsteps]
  | some t =>
    simp [toJson, reread, Trigger.toJson, Trigger.reread, Json.reread, rereadMembers, hsteps]

theorem isNormal_reread {w : Workflow} (h : w.IsNormal) : w.reread.IsNormal := by
  refine ⟨fun t ht => ?_, Step.allNormal_rereadAll w.steps h.2⟩
  obtain ⟨t, hmem, rfl⟩ := Option.map_eq_some_iff.mp ht
  exact h.1 t hmem

variable {text : String} {w : Workflow}

/-- The workflow inside a generated text was read from a part of it. -/
theorem exists_of_extract (h : extract text = .ok w) :
    ∃ span, objectSpan? text.toList = some span ∧ parse (String.ofList span) = .ok w := by
  unfold extract at h
  split at h
  · cases h
  · rename_i span hspan
    refine ⟨span, hspan, ?_⟩
    unfold parse
    split at h
    · exact h
    · cases h

/-- The steps of a text stand in an array in its object. -/
theorem spans_of_parse (h : parse text = .ok w) : Step.Spans 125 w.steps := by
  obtain ⟨ms, hms, rfl⟩ := exists_fitMembers_of_parse h
  exact Step.spans_ofMembers ms 125 hms.2

theorem regular_toJson (h : parse text = .ok w) : w.toJson.Regular := by
  have hsteps : RegularItems (Step.toItems w.steps) := by
    obtain ⟨ms, hms, rfl⟩ := exists_fitMembers_of_parse h
    exact Step.regularItems_toItems _ (Step.allConfigsFit_ofMembers (by decide) ms hms.2)
  have htrigger (t : Trigger) (ht : w.trigger = some t) : (Json.object t.config).Regular :=
    (fitsIn_trigger h ht).1
  rcases w with ⟨name, trigger, steps⟩
  cases trigger with
  | none => simpa [toJson, Json.Regular, Members.keys, RegularMembers] using hsteps
  | some t =>
    obtain ⟨hkeys, hconfig⟩ := htrigger t rfl
    rw [Members.keys] at hkeys
    simpa [toJson, Trigger.toJson, Json.Regular, Members.keys, RegularMembers, hkeys, hconfig]
      using hsteps

/-- There is always room for the trigger, so that only the steps of a workflow that was read can
nest it too deep. -/
theorem depth_toJson_le_iff (h : parse text = .ok w) :
    w.toJson.depth ≤ maxDepth ↔ Step.storedDepthAll w.steps < 63 := by
  have hsteps : (Json.array (Step.toItems w.steps)).depth ≤ 126 ↔
      Step.storedDepthAll w.steps < 63 := by
    rw [Step.toItems_eq_map, depth_array_le_iff, List.forall_mem_map, (spans_of_parse h).written]
    omega
  have htrigger : ∀ t, w.trigger = some t → t.toJson.depth ≤ 126 := by
    intro t ht
    have hconfig := (fitsIn_trigger h ht).2
    have htag : (Json.string t.kind.tag).depth ≤ 125 := Nat.zero_le 125
    rw [Trigger.toJson, depth_object_le_iff, List.forall_mem_cons, List.forall_mem_singleton]
    exact ⟨htag, hconfig⟩
  have hname : (Json.string w.name).depth ≤ 126 := Nat.zero_le 126
  rw [← hsteps, maxDepth, toJson, depth_object_le_iff]
  cases ht : w.trigger with
  | none => simp [hname]
  | some t => simp [hname, htrigger t ht]

/-- What comes of the texts that a workflow is printed as, if it was read from a text. -/
theorem parse_printed (h : parse text = .ok w) {printed : String}
    (hprinted : printed ∈ w.toJson.printed) :
    (Step.storedDepthAll w.steps < 63 → parse printed = .ok w.reread) ∧
      (Step.storedDepthAll w.steps = 63 → ∃ place,
        parse printed = .error (.malformedText ⟨.grammar .tooDeep, place⟩)) := by
  have hread := (read_printed (regular_toJson h) hprinted).congr (depth_toJson_le_iff h)
  constructor
  · intro hlevels
    obtain ⟨ms, -, rfl⟩ := exists_of_parse h
    rw [parse, hread.value hlevels, reread_toJson]
    exact ofJson_toJson (isNormal_reread (isNormal_ofMembers ms))
  · intro hlevels
    obtain ⟨rest, hfault⟩ := hread.fault (Nat.not_lt.mpr (Nat.le_of_eq hlevels.symm))
    rw [parse, hfault]
    exact ⟨_, rfl⟩

/-! ## Towers of steps -/

/-- Members that hold a tower of so many steps, each below the one before, without any
configurations. -/
def tower : Nat → Members
  | 0 => [("type", .string "sub_workflow")]
  | n + 1 => [("type", .string "sub_workflow"), ("steps", .array [.object (tower n)])]

/-- The text of a workflow that is a tower of steps. -/
def towerText (n : Nat) : String := (Json.object (tower n)).compact

theorem fitsIn_tower (n : Nat) : FitsIn (2 * n + 1) (.object (tower n)) := by
  have htag (k : Nat) : FitsIn k (.string "sub_workflow") := ⟨trivial, Nat.zero_le k⟩
  induction n with
  | zero =>
    have hkeys : ["type"].Nodup := by decide
    exact fitsIn_object.mpr ⟨hkeys, List.forall_mem_singleton.mpr (htag 0)⟩
  | succ n ih =>
    have hkeys : ["type", "steps"].Nodup := by decide
    refine fitsIn_object.mpr ⟨hkeys, ?_⟩
    rw [tower, List.forall_mem_cons, List.forall_mem_singleton]
    exact ⟨htag _, fitsIn_array.mpr (List.forall_mem_singleton.mpr ih)⟩

theorem doubles_tower (n : Nat) : (Json.object (tower n)).doubles = [] := by
  induction n with
  | zero => rfl
  | succ n ih =>
    rw [doubles] at ih
    simp [tower, doubles, doublesMembers, doublesItems, ih]

theorem steps_tower (n : Nat) : Step.ofMembers (tower (n + 1)) =
    [{ kind := .subWorkflow, steps := Step.ofMembers (tower n) }] := by
  cases n with
  | zero => rfl
  | succ n => rfl

/-- A tower has one step on each level. -/
theorem levels_tower (n : Nat) : (ofMembers (tower n)).stepCount = n ∧
    (ofMembers (tower n)).depth = n ∧ Step.storedDepthAll (ofMembers (tower n)).steps = n := by
  have hsteps (n : Nat) : (ofMembers (tower n)).steps = Step.ofMembers (tower n) := rfl
  simp only [stepCount, depth, hsteps]
  induction n with
  | zero => exact ⟨rfl, rfl, rfl⟩
  | succ n ih =>
    obtain ⟨hcount, hdepth, hstored⟩ := ih
    simp [steps_tower, Step.countAll, Step.count, Step.depthAll, Step.depth, Step.storedDepthAll,
      Step.storedDepth, hcount, hdepth, hstored, Nat.add_comm]

/-- A tower is read as long as it fits. -/
theorem parse_towerText {n : Nat} (hn : n ≤ 63) :
    parse (towerText n) = .ok (ofMembers (tower n)) := by
  have hfits : FitsIn maxDepth (.object (tower n)) :=
    (fitsIn_tower n).mono (Nat.add_le_add_right (Nat.mul_le_mul_left 2 hn) 1)
  rw [parse, towerText, read_compact hfits.1 hfits.2 (doubles_tower n)]
  rfl

/-! ## Texts of workflows that were read -/

/-- A workflow that was read, from a text or inside a generated one, is printed so that it is read
again, up to the doubles in its configurations and with the same steps, unless its steps are stored
on 63 levels, which is as many as a text can hold. Then the configurations of the deepest steps are
printed one level too deep, and no text that the workflow is printed as is accepted. -/
theorem printed_workflow_is_read_unless_stored_full
    (h : parse text = .ok w ∨ extract text = .ok w) :
    Step.storedDepthAll w.steps ≤ 63 ∧
      w.reread.stepCount = w.stepCount ∧ w.reread.depth = w.depth ∧
      ∀ printed ∈ w.toJson.printed,
        (Step.storedDepthAll w.steps < 63 → parse printed = .ok w.reread) ∧
        (Step.storedDepthAll w.steps = 63 → ∃ place,
          parse printed = .error (.malformedText ⟨.grammar .tooDeep, place⟩)) := by
  obtain ⟨part, hpart⟩ : ∃ part, parse part = .ok w := by
    rcases h with hparse | hextract
    · exact ⟨text, hparse⟩
    · obtain ⟨span, -, hspan⟩ := exists_of_extract hextract
      exact ⟨_, hspan⟩
  have hstored := (spans_of_parse hpart).stored
  exact ⟨by omega, stepCount_reread w, depth_reread w, fun _ => parse_printed hpart⟩

/-- The highest tower that comes through. -/
theorem printed_workflow_is_read_unless_stored_full_tower :
    parse (towerText 62) = .ok (ofMembers (tower 62)) ∧
      ∀ printed ∈ (ofMembers (tower 62)).toJson.printed,
        parse printed = .ok (ofMembers (tower 62)).reread := by
  have hparse := parse_towerText (n := 62) (by decide)
  obtain ⟨-, -, -, hprinted⟩ := printed_workflow_is_read_unless_stored_full (.inl hparse)
  have hlevels : Step.storedDepthAll (ofMembers (tower 62)).steps < 63 := by
    rw [(levels_tower 62).2.2]
    decide
  exact ⟨hparse, fun printed hmem => (hprinted printed hmem).1 hlevels⟩

/-- A tower that is read, and then refused. -/
theorem printed_workflow_is_refused :
    parse (towerText 63) = .ok (ofMembers (tower 63)) ∧
      (ofMembers (tower 63)).stepCount = 63 ∧ (ofMembers (tower 63)).depth = 63 ∧
      ∀ printed ∈ (ofMembers (tower 63)).toJson.printed, ∃ place,
        parse printed = .error (.malformedText ⟨.grammar .tooDeep, place⟩) := by
  have hparse := parse_towerText (n := 63) (by decide)
  obtain ⟨hcount, hdepth, hstored⟩ := levels_tower 63
  exact ⟨hparse, hcount, hdepth, fun _ hmem => (parse_printed hparse hmem).2 hstored⟩

end Workflow

end Flowline
