import Flowline.Proofs.Json.Changes
import Flowline.Proofs.Json.Results
import Flowline.Proofs.Workflow.NormalForm
import Flowline.Workflow.Conversion

/-!
# Conversions that may fail

A workflow is what the fields of an object say. `convert` makes it member by member and refuses a
key that is there twice, and the readers of triggers and of stored steps inside it do the same, so
that a fault could come up on any level. It never does for a value in which the keys of every object
are distinct: `convert_eq_ofJson`. Values that were read are such values.
-/

namespace Flowline

/-! ## Members by their keys -/

theorem Members.object_eq (ms : Members) (key : String) :
    ms.object key = ((ms.get? key).map Json.members).getD [] := by
  unfold object Json.members
  cases ms.get? key with
  | none => rfl
  | some v => cases v <;> rfl

/-- What is made of the text of a member, or of no text. -/
theorem Members.apply_getD_text? {α : Type} (f : String → α) (ms : Members) (key : String) :
    f ((ms.text? key).getD "") =
      ((ms.get? key).map fun v => f (v.text?.getD "")).getD (f "") := by
  unfold text?
  cases ms.get? key <;> rfl

theorem Members.text?_eq (ms : Members) (key : String) :
    ms.text? key = ((ms.get? key).map Json.text?).getD none := by
  unfold text?
  cases ms.get? key <;> rfl

/-! ## Triggers -/

namespace Trigger

/-- Members with distinct keys, taken in order, make the trigger that their object describes. -/
theorem foldl_withField {ms : Members} (h : ms.keys.Nodup) :
    ms.foldl (fun t m => t.withField m.1 m.2) {} = ofMembers ms := by
  have hkind := foldl_field withField kind (fun v => .ofTag (v.text?.getD "")) "type"
    (fun t v => rfl) (fun t k v hk => by grind [withField]) h {}
  have hconfig := foldl_field withField config Json.members "config"
    (fun t v => rfl) (fun t k v hk => by grind [withField]) h {}
  refine (mk.injEq ..).mpr ⟨?_, ?_⟩
  · exact hkind.trans (Members.apply_getD_text? TriggerKind.ofTag ms "type").symm
  · exact hconfig.trans (Members.object_eq ms "config").symm

theorem withField_of_unknown (t : Trigger) {key : String} (v : Json) (h : key ∉ record.keys) :
    t.withField key v = t := by
  simp only [Json.Record.keys, record, Json.Field.of, List.map_cons, List.map_nil, List.mem_cons,
    List.not_mem_nil, or_false, not_or] at h
  rw [withField, if_neg h.1, if_neg h.2]

theorem convert_eq_ofJson? {j : Json} (h : j.Regular) : convert j = .ok (ofJson? j) := by
  cases j with
  | object ms =>
    rw [convert, Json.makeChanges_ok (Members.nodup_keys_only h.1 _) fun _ _ => List.not_mem_nil,
      foldl_only fun t k v hk => t.withField_of_unknown v hk, foldl_withField h.1]
    rfl
  | _ => rfl

end Trigger

/-! ## Steps -/

namespace Step

theorem eq_of_fields {s t : Step} (hid : s.id = t.id) (hkind : s.kind = t.kind)
    (hname : s.name = t.name) (hconfig : s.config = t.config) (hsteps : s.steps = t.steps) :
    s = t := by
  rcases s with ⟨id, kind, name, config, steps⟩
  rcases t with ⟨id', kind', name', config', steps'⟩
  exact (mk.injEq ..).mpr ⟨hid, hkind, hname, hconfig, hsteps⟩

theorem ofMembers_eq_getD (ms : Members) :
    ofMembers ms = ((ms.get? "steps").map ofSlot).getD [] := by
  rw [ofMembers_eq]
  cases ms.get? "steps" <;> rfl

/-- Members with distinct keys, taken in order, make the step that their object describes. -/
theorem foldl_withField {ms : Members} (h : ms.keys.Nodup) :
    ms.foldl (fun s m => s.withField m.1 m.2) {} = ofJson (.object ms) := by
  have hid := foldl_field withField id Json.text? "id"
    (fun s v => rfl) (fun s k v hk => by grind [withField]) h {}
  have hkind := foldl_field withField kind (fun v => .ofTag (v.text?.getD "")) "type"
    (fun s v => rfl) (fun s k v hk => by grind [withField]) h {}
  have hname := foldl_field withField name Json.text? "name"
    (fun s v => rfl) (fun s k v hk => by grind [withField]) h {}
  have hconfig := foldl_field withField config Json.members "config"
    (fun s v => rfl) (fun s k v hk => by grind [withField]) h {}
  have hsteps := foldl_field withField steps ofSlot "steps"
    (fun s v => rfl) (fun s k v hk => by grind [withField]) h {}
  rw [ofJson]
  refine eq_of_fields ?_ ?_ ?_ ?_ ?_
  · exact hid.trans (Members.text?_eq ms "id").symm
  · exact hkind.trans (Members.apply_getD_text? StepKind.ofTag ms "type").symm
  · exact hname.trans (Members.text?_eq ms "name").symm
  · exact hconfig.trans (Members.object_eq ms "config").symm
  · exact hsteps.trans (ofMembers_eq_getD ms).symm

theorem withField_of_unknown (s : Step) {key : String} (v : Json) (h : key ∉ record.keys) :
    s.withField key v = s := by
  simp only [Json.Record.keys, record, Json.Field.of, List.map_cons, List.map_nil, List.mem_cons,
    List.not_mem_nil, or_false, not_or] at h
  obtain ⟨hid, hkind, hname, hconfig, hsteps⟩ := h
  rw [withField, if_neg hid, if_neg hkind, if_neg hname, if_neg hconfig, if_neg hsteps]

mutual

theorem convert_eq_ofJson : (j : Json) → j.Regular → convert j = .ok (ofJson j)
  | .object ms, h => by
    rw [convert, changes_eq ms h.2,
      Json.makeChanges_ok (Members.nodup_keys_only h.1 _) fun _ _ => List.not_mem_nil,
      foldl_only fun s k v hk => s.withField_of_unknown v hk, foldl_withField h.1]
  | .null, _ => rfl
  | .bool _, _ => rfl
  | .int _, _ => rfl
  | .double _, _ => rfl
  | .string _, _ => rfl
  | .array _, _ => rfl

theorem changes_eq : (ms : List (String × Json)) → Json.RegularMembers ms →
    changes ms = (Members.only ms record.keys).map fun m =>
      (m.1, .ok fun s => s.withField m.1 m.2)
  | [], _ => rfl
  | (k, v) :: ms, h => by
    rw [changes, changes_eq ms h.2]
    by_cases hsteps : k = "steps"
    · have hknown : k ∈ record.keys := by
        rw [hsteps]
        decide
      rw [if_pos hsteps, convertSlot_eq v h.1, Members.only_cons_of_mem hknown, hsteps]
      rfl
    · rw [if_neg hsteps]
      by_cases hknown : k ∈ record.keys
      · rw [if_pos hknown, Members.only_cons_of_mem hknown]
        rfl
      · rw [if_neg hknown, Members.only_cons_of_not_mem hknown]

theorem convertSlot_eq : (j : Json) → j.Regular → convertSlot j = .ok (ofSlot j)
  | .array items, h => by rw [convertSlot, convertItems_eq items h, ofSlot]
  | .null, _ => rfl
  | .bool _, _ => rfl
  | .int _, _ => rfl
  | .double _, _ => rfl
  | .string _, _ => rfl
  | .object _, _ => rfl

theorem convertItems_eq : (js : List Json) → Json.RegularItems js →
    convertItems js = .ok (ofItems js)
  | [], _ => rfl
  | j :: js, h => by
    rw [convertItems, convert_eq_ofJson j h.1, convertItems_eq js h.2]
    rfl

end

end Step

/-! ## Workflows -/

namespace Workflow

/-- Members with distinct keys, taken in order, make the workflow that their object describes. -/
theorem foldl_withField {ms : Members} (h : ms.keys.Nodup) :
    ms.foldl (fun w m => w.withField m.1 m.2) {} = ofMembers ms := by
  have hname := foldl_field withField name (fun v => v.text?.getD "") "name"
    (fun w v => rfl) (fun w k v hk => by grind [withField]) h {}
  have htrigger := foldl_field withField trigger Trigger.ofJson? "trigger"
    (fun w v => rfl) (fun w k v hk => by grind [withField]) h {}
  have hsteps := foldl_field withField steps Step.ofSlot "steps"
    (fun w v => rfl) (fun w k v hk => by grind [withField]) h {}
  refine (mk.injEq ..).mpr ⟨?_, ?_, ?_⟩
  · exact hname.trans (Members.apply_getD_text? (fun t => t) ms "name").symm
  · rw [htrigger]
    cases ms.get? "trigger" <;> rfl
  · exact hsteps.trans (Step.ofMembers_eq_getD ms).symm

theorem withField_of_unknown (w : Workflow) {key : String} (v : Json) (h : key ∉ record.keys) :
    w.withField key v = w := by
  simp only [Json.Record.keys, record, Json.Field.of, List.map_cons, List.map_nil, List.mem_cons,
    List.not_mem_nil, or_false, not_or] at h
  rw [withField, if_neg h.1, if_neg h.2.1, if_neg h.2.2]

theorem change_eq (key : String) {v : Json} (h : v.Regular) :
    change key v = .ok fun w => w.withField key v := by
  unfold change
  split
  · rename_i hkey
    rw [Trigger.convert_eq_ofJson? h, hkey]
    rfl
  · split
    · rename_i hkey
      rw [Step.convertSlot_eq v h, hkey]
      rfl
    · rfl

/-- The conversion does not fail for a value whose objects have distinct keys, and it makes the
workflow that the value describes. -/
theorem convert_eq_ofJson {j : Json} (h : j.Regular) : convert j = ofJson j := by
  cases j with
  | object ms =>
    have hchanges : ((Members.only ms record.keys).map fun m => (m.1, change m.1 m.2)) =
        (Members.only ms record.keys).map fun m => (m.1, .ok fun w => w.withField m.1 m.2) := by
      refine List.map_congr_left fun m hm => ?_
      rw [change_eq m.1 (Json.regularMembers_iff.mp h.2 m (List.mem_filter.mp hm).1)]
    rw [convert, hchanges,
      Json.makeChanges_ok (Members.nodup_keys_only h.1 _) fun _ _ => List.not_mem_nil,
      foldl_only fun w k v hk => w.withField_of_unknown v hk, foldl_withField h.1]
    rfl
  | _ => rfl

/-- A text that was read is converted without a fault. -/
theorem convert_of_read {text : String} {j : Json} (h : Json.read text = .ok j) :
    convert j = parse text := by
  rw [convert_eq_ofJson (Json.fitsIn_of_read h).1, parse, h]

end Workflow

end Flowline
