import Flowline.Proofs.Json.Results
import Flowline.Proofs.Steps.Visits
import Flowline.Workflow.OfText

/-!
# Configurations that were read

A configuration is kept as it stands in the text, so it is regular, and it is nested no deeper than
the levels that were left where it stood: all but two for the configuration of the trigger, and all
but three for those of steps, which may also stand deeper.
-/

namespace Flowline

open Json

namespace Members

theorem mem_of_get? {ms : Members} {key : String} {v : Json} (h : ms.get? key = some v) :
    (key, v) ∈ ms := by
  induction ms with
  | nil => cases h
  | cons m ms ih =>
    rcases m with ⟨k, w⟩
    unfold get? at h
    split at h
    · rename_i hkey
      rw [hkey, Option.some.inj h]
      exact List.mem_cons_self
    · exact List.mem_cons_of_mem _ (ih h)

end Members

theorem Json.fitsIn_empty {n : Nat} (hn : 0 < n) : FitsIn n (.object []) :=
  ⟨⟨List.nodup_nil, trivial⟩, hn⟩

/-- The object under a key fits where all values fit, also if it is missing. -/
theorem Json.FitMembers.object {n : Nat} (hn : 0 < n) {ms : Members} (h : FitMembers n ms)
    (key : String) : FitsIn n (.object (ms.object key)) := by
  unfold Members.object
  split
  · rename_i members hget
    exact h.2 _ (Members.mem_of_get? hget)
  · exact fitsIn_empty hn

/-! ## Steps -/

namespace Step

mutual

/-- A step whose configuration fits in so many levels, as do those of all steps stored below it. -/
def ConfigsFit (n : Nat) : Step → Prop
  | ⟨_, _, _, config, steps⟩ => FitsIn n (.object config) ∧ AllConfigsFit n steps

/-- Siblings whose configurations fit. -/
def AllConfigsFit (n : Nat) : List Step → Prop
  | [] => True
  | s :: ss => ConfigsFit n s ∧ AllConfigsFit n ss

end

variable {n : Nat}

theorem ConfigsFit.config {s : Step} (h : s.ConfigsFit n) : FitsIn n (.object s.config) := by
  rcases s with ⟨id, kind, name, config, steps⟩
  rw [ConfigsFit] at h
  exact h.1

theorem ConfigsFit.children {s : Step} (h : s.ConfigsFit n) : AllConfigsFit n s.children := by
  rcases s with ⟨id, kind, name, config, steps⟩
  rw [ConfigsFit] at h
  unfold Step.children
  split
  · exact h.2
  · trivial

theorem AllConfigsFit.of_mem_reached {ss : List Step} (h : AllConfigsFit n ss) :
    ∀ s ∈ reached ss, FitsIn n (.object s.config) := by
  induction ss using siblings_induction with
  | nil => exact fun _ hmem => absurd hmem List.not_mem_nil
  | cons s ss below rest =>
    intro r hr
    rw [reached_cons, List.mem_cons, List.mem_append] at hr
    rcases hr with rfl | hr | hr
    · exact h.1.config
    · exact below h.1.children r hr
    · exact rest h.2 r hr

theorem configsFit_blank (hn : 0 < n) : ConfigsFit n {} := by
  rw [ConfigsFit]
  exact ⟨fitsIn_empty hn, trivial⟩

mutual

/-- The configuration of a step is one level below its step, and steps that are stored below it are
deeper still. -/
theorem configsFit_ofJson (hn : 0 < n) : (j : Json) → FitsIn (n + 1) j → ConfigsFit n (ofJson j)
  | .object ms, h => by
    have hms := fitsIn_object.mp h
    rw [ofJson, ConfigsFit]
    exact ⟨hms.object hn "config",
      allConfigsFit_ofMembers hn ms fun m hm => (hms.2 m hm).mono (Nat.le_add_right n 2)⟩
  | .null, _ => configsFit_blank hn
  | .bool _, _ => configsFit_blank hn
  | .int _, _ => configsFit_blank hn
  | .double _, _ => configsFit_blank hn
  | .string _, _ => configsFit_blank hn
  | .array _, _ => configsFit_blank hn

theorem allConfigsFit_ofMembers (hn : 0 < n) : (ms : List (String × Json)) →
    (∀ m ∈ ms, FitsIn (n + 2) m.2) → AllConfigsFit n (ofMembers ms)
  | [], _ => trivial
  | (k, v) :: ms, h => by
    obtain ⟨hv, hms⟩ := List.forall_mem_cons.mp h
    rw [ofMembers]
    split
    · exact allConfigsFit_ofSlot hn v hv
    · exact allConfigsFit_ofMembers hn ms hms

theorem allConfigsFit_ofSlot (hn : 0 < n) : (j : Json) → FitsIn (n + 2) j →
    AllConfigsFit n (ofSlot j)
  | .array items, h => by
    rw [ofSlot]
    exact allConfigsFit_ofItems hn items (fitsIn_array.mp h)
  | .null, _ => trivial
  | .bool _, _ => trivial
  | .int _, _ => trivial
  | .double _, _ => trivial
  | .string _, _ => trivial
  | .object _, _ => trivial

theorem allConfigsFit_ofItems (hn : 0 < n) : (js : List Json) → (∀ j ∈ js, FitsIn (n + 1) j) →
    AllConfigsFit n (ofItems js)
  | [], _ => trivial
  | j :: js, h => by
    obtain ⟨hj, hjs⟩ := List.forall_mem_cons.mp h
    exact ⟨configsFit_ofJson hn j hj, allConfigsFit_ofItems hn js hjs⟩

end

end Step

/-! ## Workflows -/

theorem Trigger.fitsIn_ofJson? {n : Nat} (hn : 0 < n) {j : Json} (h : FitsIn (n + 1) j)
    {t : Trigger} (ht : ofJson? j = some t) : FitsIn n (.object t.config) := by
  unfold ofJson? at ht
  split at ht
  · obtain rfl := Option.some.inj ht
    exact (fitsIn_object.mp h).object hn "config"
  · split at ht
    · obtain rfl := Option.some.inj ht
      exact fitsIn_empty hn
    · cases ht

namespace Workflow

/-- The workflow of a text was read from an object. -/
theorem exists_of_parse {text : String} {w : Workflow} (h : parse text = .ok w) :
    ∃ ms, Json.read text = .ok (.object ms) ∧ w = ofMembers ms := by
  unfold parse at h
  split at h
  · rename_i j hread
    cases j with
    | object ms => exact ⟨ms, hread, (Except.ok.inj h).symm⟩
    | _ => cases h
  · cases h

variable {text : String} {w : Workflow}

/-- The object that a workflow was read from leaves all levels but one to its members. -/
theorem exists_fitMembers_of_parse (h : parse text = .ok w) :
    ∃ ms, FitMembers 126 ms ∧ w = ofMembers ms := by
  obtain ⟨ms, hread, hw⟩ := exists_of_parse h
  exact ⟨ms, fitsIn_object.mp (fitsIn_of_read hread), hw⟩

/-- There are two levels around the configuration of the trigger. -/
theorem fitsIn_trigger (h : parse text = .ok w) {t : Trigger} (ht : w.trigger = some t) :
    FitsIn 125 (.object t.config) := by
  obtain ⟨ms, hms, rfl⟩ := exists_fitMembers_of_parse h
  obtain ⟨v, hget, hv⟩ := Option.bind_eq_some_iff.mp ht
  exact Trigger.fitsIn_ofJson? (by decide) (hms.2 _ (Members.mem_of_get? hget)) hv

/-- There are at least three levels around the configuration of a step. -/
theorem fitsIn_step (h : parse text = .ok w) {s : Step} (hs : s ∈ Step.reached w.steps) :
    FitsIn 124 (.object s.config) := by
  obtain ⟨ms, hms, rfl⟩ := exists_fitMembers_of_parse h
  exact (Step.allConfigsFit_ofMembers (by decide) ms hms.2).of_mem_reached s hs

end Workflow

end Flowline
