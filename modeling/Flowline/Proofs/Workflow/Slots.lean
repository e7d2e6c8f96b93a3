import Flowline.Proofs.Json.Finite
import Flowline.Proofs.Workflow.Configs
import Flowline.Proofs.Workflow.Conversion

/-!
# Slots

Reading gives one step for every slot, which is an item of the `steps` of a workflow or of a step
object. A place is a list of positions, counted from zero, that leads from one slot to a slot inside
it. Reading commutes with going to a place and with replacing what stands there, so a value has no
influence beyond its slot. Inside an object only the fields count, and not their order.
-/

namespace Flowline

/-! ## Slots of values -/

namespace Json

/-- The items of an array. -/
def itemList : Json → List Json
  | .array items => items
  | _ => []

/-- The slots of an object. -/
def slots : Json → List Json
  | .object ms => ((Members.get? ms "steps").map itemList).getD []
  | _ => []

/-- What stands at a place in a value. -/
def slotAt? : Json → List Nat → Option Json
  | j, [] => some j
  | j, i :: place => j.slots[i]?.bind fun item => item.slotAt? place

/-- An array with an item edited. -/
def editItem (i : Nat) (edit : Json → Json) : Json → Json
  | .array items => .array (items.modify i edit)
  | j => j

end Json

/-- The members of an object with a slot edited. -/
def Members.editSlot (i : Nat) (edit : Json → Json) (ms : Members) : Members :=
  ms.map fun m => if m.1 = "steps" then (m.1, m.2.editItem i edit) else m

/-- A value with another one put at a place. -/
def Json.replaceAt : Json → List Nat → Json → Json
  | _, [], v => v
  | .object ms, i :: place, v =>
    .object (Members.editSlot i (fun item => item.replaceAt place v) ms)
  | j, _ :: _, _ => j

theorem Members.get?_editSlot (i : Nat) (edit : Json → Json) (ms : Members) (key : String) :
    (ms.editSlot i edit).get? key =
      if key = "steps" then (ms.get? key).map (Json.editItem i edit) else ms.get? key := by
  induction ms with
  | nil => simp [editSlot, get?]
  | cons m ms ih =>
    rcases m with ⟨k, v⟩
    rw [editSlot] at ih ⊢
    rw [List.map_cons]
    by_cases hsteps : k = "steps"
    · by_cases hkey : "steps" = key
      · simp [get?, hsteps, ← hkey]
      · simp [get?, hsteps, hkey, ih]
    · by_cases hkey : k = key
      · simp [get?, hsteps, ← hkey]
      · simp [get?, hsteps, hkey, ih]

theorem Members.get?_editSlot_of_ne {key : String} (h : key ≠ "steps") (i : Nat)
    (edit : Json → Json) (ms : Members) : (ms.editSlot i edit).get? key = ms.get? key := by
  rw [get?_editSlot, if_neg h]

theorem Json.slots_editSlot (i : Nat) (edit : Json → Json) (ms : Members) :
    (Json.object (ms.editSlot i edit)).slots = (Json.object ms).slots.modify i edit := by
  rw [slots, slots, Members.get?_editSlot, if_pos rfl]
  cases ms.get? "steps" with
  | none => simp
  | some v => cases v <;> simp [editItem, itemList]

/-! ## Slots of steps -/

/-- Editing an element, and then making something of all of them. -/
theorem map_modify {α β : Type} {f : α → β} {edit : α → α} {edit' : β → β}
    (h : ∀ x, f (edit x) = edit' (f x)) (xs : List α) (i : Nat) :
    (xs.modify i edit).map f = (xs.map f).modify i edit' := by
  induction xs generalizing i with
  | nil => simp
  | cons x xs ih =>
    cases i with
    | zero => simp [h]
    | succ i => simp [ih]

theorem modify_eq_self_of_getElem? {α : Type} {edit : α → α} {xs : List α} {i : Nat} {x : α}
    (hx : xs[i]? = some x) (hedit : edit x = x) : xs.modify i edit = xs := by
  refine List.ext_getElem? fun k => ?_
  rw [List.getElem?_modify]
  by_cases h : i = k
  · subst h
    rw [hx]
    simp [hedit]
  · simp [h]

namespace Step

/-- The step that is stored at a place below a step. -/
def storedAt? : Step → List Nat → Option Step
  | s, [] => some s
  | s, i :: place => s.steps[i]?.bind fun t => t.storedAt? place

/-- A step with another one put at a place below it. -/
def replaceAt : Step → List Nat → Step → Step
  | _, [], t => t
  | s, i :: place, t => { s with steps := s.steps.modify i fun u => u.replaceAt place t }

/-- There is no place below a blank step. -/
theorem replaceAt_blank (i : Nat) (place : List Nat) (t : Step) :
    ({} : Step).replaceAt (i :: place) t = {} := by
  rw [replaceAt, List.modify_nil]

/-- Nothing changes at a place that is neither inside another one nor around it. -/
theorem storedAt?_replaceAt {place other : List Nat} (hin : ¬place <+: other)
    (haround : ¬other <+: place) (s t : Step) :
    (s.replaceAt place t).storedAt? other = s.storedAt? other := by
  induction place generalizing s other with
  | nil => exact absurd List.nil_prefix hin
  | cons i place ih =>
    cases other with
    | nil => exact absurd List.nil_prefix haround
    | cons k other =>
      rw [storedAt?, storedAt?, replaceAt, List.getElem?_modify]
      by_cases hsame : i = k
      · subst hsame
        rw [List.prefix_cons_inj] at hin haround
        cases hslot : s.steps[i]? with
        | none => rfl
        | some u => simpa using ih hin haround u
      · simp [hsame]

/-- A step that stands at a place can be put there again. -/
theorem replaceAt_of_storedAt? {s t : Step} {place : List Nat} (h : s.storedAt? place = some t) :
    s.replaceAt place t = s := by
  induction place generalizing s with
  | nil => exact (Option.some.inj h).symm
  | cons i place ih =>
    obtain ⟨u, hu, hbelow⟩ := Option.bind_eq_some_iff.mp h
    rcases s with ⟨id, kind, name, config, steps⟩
    rw [replaceAt]
    exact congrArg (mk id kind name config) (modify_eq_self_of_getElem? hu (ih hbelow))

theorem ofItems_eq_map (js : List Json) : ofItems js = js.map ofJson := by
  induction js with
  | nil => rfl
  | cons j js ih => rw [ofItems, ih, List.map_cons]

theorem ofSlot_eq_map (v : Json) : ofSlot v = v.itemList.map ofJson := by
  cases v with
  | array items => exact ofItems_eq_map items
  | _ => rfl

theorem ofMembers_eq_map (ms : Members) : ofMembers ms = (Json.object ms).slots.map ofJson := by
  rw [ofMembers_eq_getD, Json.slots]
  cases ms.get? "steps" with
  | none => rfl
  | some v => exact ofSlot_eq_map v

theorem steps_ofJson (j : Json) : (ofJson j).steps = j.slots.map ofJson := by
  cases j with
  | object ms => exact ofMembers_eq_map ms
  | _ => rfl

/-- Reading commutes with going to a place. -/
theorem storedAt?_ofJson (j : Json) (place : List Nat) :
    (ofJson j).storedAt? place = (j.slotAt? place).map ofJson := by
  induction place generalizing j with
  | nil => rfl
  | cons i place ih =>
    rw [storedAt?, Json.slotAt?, steps_ofJson, List.getElem?_map]
    cases j.slots[i]? with
    | none => rfl
    | some item => exact ih item

theorem ofJson_editSlot {edit : Json → Json} {change : Step → Step}
    (h : ∀ item, ofJson (edit item) = change (ofJson item)) (ms : Members) (i : Nat) :
    ofJson (.object (ms.editSlot i edit)) =
      { ofJson (.object ms) with steps := (ofJson (.object ms)).steps.modify i change } := by
  have htext (key : String) (hkey : key ≠ "steps") :
      (ms.editSlot i edit).text? key = ms.text? key := by
    rw [Members.text?, Members.text?, Members.get?_editSlot_of_ne hkey]
  refine eq_of_fields ?_ ?_ ?_ ?_ ?_
  · exact htext "id" (by decide)
  · exact congrArg (fun tag => StepKind.ofTag (tag.getD "")) (htext "type" (by decide))
  · exact htext "name" (by decide)
  · show (ms.editSlot i edit).object "config" = ms.object "config"
    rw [Members.object, Members.object, Members.get?_editSlot_of_ne (by decide)]
  · rw [steps_ofJson, Json.slots_editSlot, map_modify h, steps_ofJson]

/-- Reading commutes with replacing what stands at a place. -/
theorem ofJson_replaceAt (j v : Json) (place : List Nat) :
    ofJson (j.replaceAt place v) = (ofJson j).replaceAt place (ofJson v) := by
  induction place generalizing j with
  | nil => rfl
  | cons i place ih =>
    cases j with
    | object ms => exact ofJson_editSlot ih ms i
    | _ => exact (replaceAt_blank i place _).symm

/-! ## Fields of a step -/

theorem ofJson_object (ms : Members) :
    ofJson (.object ms) = {
      id := (ms.get? "id").bind Json.text?
      kind := .ofTag (((ms.get? "type").bind Json.text?).getD "")
      name := (ms.get? "name").bind Json.text?
      config := ((ms.get? "config").map Json.members).getD []
      steps := ((ms.get? "steps").map ofSlot).getD [] } := by
  rw [ofJson, Members.object_eq, ofMembers_eq_getD]
  rfl

/-- A step object is read by its fields. -/
theorem ofJson_congr {ms ns : Members} (h : ∀ key ∈ record.keys, ms.get? key = ns.get? key) :
    ofJson (.object ms) = ofJson (.object ns) := by
  rw [ofJson_object, ofJson_object, h "id" (by decide), h "type" (by decide),
    h "name" (by decide), h "config" (by decide), h "steps" (by decide)]

/-- A member of a step object is read into its field. -/
theorem ofJson_put (ms : Members) (key : String) (v : Json) :
    ofJson (.object (ms.put key v)) = (ofJson (.object ms)).withField key v := by
  have hget (other : String) :
      (ms.put key v).get? other = if key = other then some v else ms.get? other := by
    split
    · rename_i hkey
      rw [← hkey, Members.get?_put_self]
    · rename_i hkey
      exact Members.get?_put_of_ne ms v hkey
  rw [ofJson_object, ofJson_object, withField]
  simp only [hget]
  by_cases hid : key = "id"
  · simp [hid]
  by_cases hkind : key = "type"
  · simp [hkind]
  by_cases hname : key = "name"
  · simp [hname]
  by_cases hconfig : key = "config"
  · simp [hconfig]
  by_cases hsteps : key = "steps"
  · simp [hsteps]
  · simp [hid, hkind, hname, hconfig, hsteps]

end Step

/-! ## Members that mean the same -/

namespace Members

/-- Members that agree in some keys, in whatever order they stand and whatever else is there. -/
def AgreeIn (keys : List String) (ms ns : Members) : Prop := (ms.only keys).Perm (ns.only keys)

theorem get?_of_mem {ms : Members} (hnodup : ms.keys.Nodup) {key : String} {v : Json}
    (h : (key, v) ∈ ms) : ms.get? key = some v := by
  induction ms with
  | nil => cases h
  | cons m ms ih =>
    obtain ⟨hnew, hnodup⟩ := List.nodup_cons.mp hnodup
    rcases List.mem_cons.mp h with rfl | hmem
    · rw [get?, if_pos rfl]
    · have hne : m.1 ≠ key := fun hkey => hnew (hkey ▸ List.mem_map_of_mem hmem)
      rw [get?, if_neg hne, ih hnodup hmem]

theorem get?_perm {ms ns : Members} (h : ms.Perm ns) (hnodup : ms.keys.Nodup) (key : String) :
    ms.get? key = ns.get? key := by
  have hnodup' : ns.keys.Nodup := (h.map Prod.fst).nodup_iff.mp hnodup
  refine Option.ext fun v => ⟨fun hv => ?_, fun hv => ?_⟩
  · exact get?_of_mem hnodup' (h.mem_iff.mp (mem_of_get? hv))
  · exact get?_of_mem hnodup (h.mem_iff.mpr (mem_of_get? hv))

theorem AgreeIn.get?_eq {keys : List String} {ms ns : Members} (h : AgreeIn keys ms ns)
    (hnodup : ms.keys.Nodup) : ∀ key ∈ keys, ms.get? key = ns.get? key := by
  intro key hkey
  rw [← get?_only hkey ms, ← get?_only hkey ns]
  exact get?_perm h (nodup_keys_only hnodup keys) key

end Members

theorem Trigger.ofMembers_congr {ms ns : Members}
    (h : ∀ key ∈ record.keys, ms.get? key = ns.get? key) : ofMembers ms = ofMembers ns := by
  rw [ofMembers, ofMembers, Members.text?, Members.text?, Members.object, Members.object,
    h "type" (by decide), h "config" (by decide)]

/-! ## Workflows -/

namespace Workflow

/-- The step that is stored at a place in a workflow. -/
def storedAt? (w : Workflow) (i : Nat) (place : List Nat) : Option Step :=
  w.steps[i]?.bind fun s => s.storedAt? place

/-- A workflow with another step put at a place. -/
def replaceAt (w : Workflow) (i : Nat) (place : List Nat) (t : Step) : Workflow :=
  { w with steps := w.steps.modify i fun s => s.replaceAt place t }

theorem ofMembers_congr {ms ns : Members} (h : ∀ key ∈ record.keys, ms.get? key = ns.get? key) :
    ofMembers ms = ofMembers ns := by
  rw [ofMembers, ofMembers, Members.text?, Members.text?, Step.ofMembers_eq_getD,
    Step.ofMembers_eq_getD, h "name" (by decide), h "trigger" (by decide), h "steps" (by decide)]

/-- Reading commutes with replacing what stands at a place. -/
theorem ofMembers_editSlot (ms : Members) (i : Nat) (place : List Nat) (v : Json) :
    ofMembers (ms.editSlot i fun item => item.replaceAt place v) =
      (ofMembers ms).replaceAt i place (Step.ofJson v) := by
  have hsteps : Step.ofMembers (ms.editSlot i fun item => item.replaceAt place v) =
      (Step.ofMembers ms).modify i fun s => s.replaceAt place (Step.ofJson v) := by
    have hitem (item : Json) := Step.ofJson_replaceAt item v place
    rw [Step.ofMembers_eq_map, Json.slots_editSlot, Step.ofMembers_eq_map]
    exact map_modify hitem _ i
  rw [replaceAt, ofMembers, ofMembers, Members.text?, Members.text?, hsteps,
    Members.get?_editSlot_of_ne (by decide), Members.get?_editSlot_of_ne (by decide)]

theorem storedAt?_ofMembers (ms : Members) (i : Nat) (place : List Nat) :
    (ofMembers ms).storedAt? i place =
      ((Json.object ms).slotAt? (i :: place)).map Step.ofJson := by
  have hstored := Step.storedAt?_ofJson (.object ms) (i :: place)
  rw [← hstored, Step.storedAt?, Step.steps_ofJson, ← Step.ofMembers_eq_map]
  rfl

theorem replaceAt_of_storedAt? {w : Workflow} {i : Nat} {place : List Nat} {t : Step}
    (h : w.storedAt? i place = some t) : w.replaceAt i place t = w := by
  obtain ⟨s, hs, hbelow⟩ := Option.bind_eq_some_iff.mp h
  have hsteps : (w.steps.modify i fun s => s.replaceAt place t) = w.steps :=
    modify_eq_self_of_getElem? hs (Step.replaceAt_of_storedAt? hbelow)
  rw [replaceAt, hsteps]

/-- How a workflow is read from a value: every slot on its own, and objects by their fields. -/
structure ReadSlotwise (j : Json) (w : Workflow) : Prop where
  /-- There is a step for every slot of the workflow, in order. -/
  steps : w.steps = j.slots.map Step.ofJson
  /-- There is a step for every slot of a step object, in order. -/
  below : ∀ item, (Step.ofJson item).steps = item.slots.map Step.ofJson
  /-- This holds on every level: at each place stands the step of the slot at that place. -/
  stored : ∀ i place, w.storedAt? i place = (j.slotAt? (i :: place)).map Step.ofJson
  /-- Whatever is put into a slot, only the step of that slot is another one. -/
  replaced : ∀ i place v,
    ofJson (j.replaceAt (i :: place) v) = .ok (w.replaceAt i place (Step.ofJson v))
  /-- A step that is put at a place leaves the steps at all places alone that are neither inside
  nor around that place. -/
  untouched : ∀ i place t k other, ¬i :: place <+: k :: other → ¬k :: other <+: i :: place →
    (w.replaceAt i place t).storedAt? k other = w.storedAt? k other
  /-- Whatever is put into a member of a step object, only the field with its key is another one. -/
  field : ∀ i place (ms : Members) key v, j.slotAt? (i :: place) = some (.object ms) →
    ofJson (j.replaceAt (i :: place) (.object (ms.put key v))) =
      .ok (w.replaceAt i place ((Step.ofJson (.object ms)).withField key v))
  /-- The order of the members of a step object, and members that are no fields, mean nothing. -/
  rearranged : ∀ i place (ms ns : Members), j.slotAt? (i :: place) = some (.object ms) →
    ms.keys.Nodup → ms.AgreeIn Step.record.keys ns →
    ofJson (j.replaceAt (i :: place) (.object ns)) = .ok w
  /-- They mean nothing in the object of the trigger. -/
  triggerRearranged : ∀ ms ts us : Members, j = .object ms →
    ms.get? "trigger" = some (.object ts) → ts.keys.Nodup → ts.AgreeIn Trigger.record.keys us →
    ofJson (.object (ms.put "trigger" (.object us))) = .ok w
  /-- They mean nothing in the object of the workflow. -/
  topRearranged : ∀ ms ns : Members, j = .object ms → ms.keys.Nodup → ms.AgreeIn record.keys ns →
    ofJson (.object ns) = .ok w

theorem ofJson_eq_ok_iff {j : Json} {w : Workflow} :
    ofJson j = .ok w ↔ ∃ ms, j = .object ms ∧ ofMembers ms = w := by
  cases j <;> simp [ofJson]

theorem untouched_replaceAt {i k : Nat} {place other : List Nat} (hin : ¬i :: place <+: k :: other)
    (haround : ¬k :: other <+: i :: place) (w : Workflow) (t : Step) :
    (w.replaceAt i place t).storedAt? k other = w.storedAt? k other :=
  Step.storedAt?_replaceAt hin haround { steps := w.steps } t

theorem ofJson_rearranged {ms : Members} {i : Nat} {place : List Nat} {v : Json} {item : Json}
    (hslot : (Json.object ms).slotAt? (i :: place) = some item)
    (hsame : Step.ofJson v = Step.ofJson item) :
    ofJson ((Json.object ms).replaceAt (i :: place) v) = .ok (ofMembers ms) := by
  have hstored : (ofMembers ms).storedAt? i place = some (Step.ofJson v) := by
    rw [storedAt?_ofMembers, hslot, hsame]
    rfl
  rw [Json.replaceAt, ofJson, ofMembers_editSlot, replaceAt_of_storedAt? hstored]

theorem ofMembers_put_trigger {ms : Members} {v v' : Json} (h : ms.get? "trigger" = some v)
    (hsame : Trigger.ofJson? v' = Trigger.ofJson? v) :
    ofMembers (ms.put "trigger" v') = ofMembers ms := by
  have hname : (ms.put "trigger" v').get? "name" = ms.get? "name" :=
    Members.get?_put_of_ne ms v' (by decide)
  have hsteps : (ms.put "trigger" v').get? "steps" = ms.get? "steps" :=
    Members.get?_put_of_ne ms v' (by decide)
  rw [ofMembers, ofMembers, Members.text?, Members.text?, Step.ofMembers_eq_getD,
    Step.ofMembers_eq_getD, hname, hsteps, Members.get?_put_self, h, Option.bind_some,
    Option.bind_some, hsame]

theorem readSlotwise {j : Json} {w : Workflow} (h : ofJson j = .ok w) : ReadSlotwise j w := by
  obtain ⟨ms, rfl, rfl⟩ := ofJson_eq_ok_iff.mp h
  have hreplaced (i : Nat) (place : List Nat) (v : Json) :
      ofJson ((Json.object ms).replaceAt (i :: place) v) =
        .ok ((ofMembers ms).replaceAt i place (Step.ofJson v)) := by
    rw [Json.replaceAt, ofJson, ofMembers_editSlot]
  exact {
    steps := Step.ofMembers_eq_map ms
    below := Step.steps_ofJson
    stored := storedAt?_ofMembers ms
    replaced := hreplaced
    untouched := fun i place t k other hin haround => untouched_replaceAt hin haround _ t
    field := fun i place ms' key v _ => by rw [hreplaced, Step.ofJson_put]
    rearranged := fun i place ms' ns hslot hnodup hagree =>
      ofJson_rearranged hslot (Step.ofJson_congr (hagree.get?_eq hnodup)).symm
    triggerRearranged := fun ms' ts us hms htrigger hnodup hagree => by
      obtain rfl := Json.object.inj hms
      have hsame : Trigger.ofJson? (.object us) = Trigger.ofJson? (.object ts) :=
        congrArg some (Trigger.ofMembers_congr (hagree.get?_eq hnodup)).symm
      rw [ofJson, ofMembers_put_trigger htrigger hsame]
    topRearranged := fun ms' ns hms hnodup hagree => by
      obtain rfl := Json.object.inj hms
      rw [ofJson, ofMembers_congr (hagree.get?_eq hnodup)] }

theorem parse_eq_ok_iff {text : String} :
    (∃ w, parse text = .ok w) ↔ ∃ ms, Json.read text = .ok (.object ms) := by
  rw [parse]
  cases Json.read text with
  | error f => simp
  | ok j =>
    constructor
    · rintro ⟨w, hw⟩
      obtain ⟨ms, rfl, -⟩ := ofJson_eq_ok_iff.mp hw
      exact ⟨ms, rfl⟩
    · rintro ⟨ms, hms⟩
      obtain rfl := Except.ok.inj hms
      exact ⟨ofMembers ms, rfl⟩

theorem code_of_parse_error {text : String} {i : Issue} (h : parse text = .error i) :
    i.diagnostic.code = "P001" ∧ (∃ f, Json.read text = .error f) ∨
      i.diagnostic.code = "P003" ∧ ∃ j, Json.read text = .ok j ∧ ∀ ms, j ≠ .object ms := by
  rw [parse] at h
  cases hread : Json.read text with
  | error f =>
    rw [hread] at h
    obtain rfl := Except.error.inj h
    exact .inl ⟨rfl, f, rfl⟩
  | ok j =>
    rw [hread] at h
    refine .inr ⟨?_, j, rfl, ?_⟩
    · cases j <;> cases h <;> rfl
    · rintro ms rfl
      cases h

/-- A text is accepted just if it is an object. Any other text is one issue: it is no JSON, or it
is JSON and no object. In particular, no member of an object is ever refused: made member by member,
by a conversion that may fail, the workflow is the same. Every slot is read on its own, on every
level, and an object by its fields. -/
theorem parse_accepts_objects_slotwise (text : String) :
    ((∃ w, parse text = .ok w) ↔ ∃ ms, Json.read text = .ok (.object ms)) ∧
      (∀ i, parse text = .error i →
        i.diagnostic.code = "P001" ∧ (∃ f, Json.read text = .error f) ∨
          i.diagnostic.code = "P003" ∧ ∃ j, Json.read text = .ok j ∧ ∀ ms, j ≠ .object ms) ∧
      (∀ j, Json.read text = .ok j → convert j = parse text) ∧
      ∀ j w, ofJson j = .ok w → ReadSlotwise j w :=
  ⟨parse_eq_ok_iff, fun _ => code_of_parse_error, fun _ => convert_of_read, fun _ _ => readSlotwise⟩

/-- The members of an object with a number and a step object in its slots. The step object has a
member that is no field, and a step object in a slot of its own. -/
def looseMembers : Members :=
  [("steps", .array [.int 7, .object [("x", .null), ("type", .string "sub_workflow"),
    ("steps", .array [.object [("name", .string "a")]])]])]

theorem regular_looseMembers : (Json.object looseMembers).Regular := by
  have hbound : (7 : Int) ≤ Json.maxWhole := by decide
  simp [looseMembers, Json.Regular, Json.RegularItems, Json.RegularMembers, Members.keys, hbound]

theorem parse_accepts_objects_slotwise_nested :
    (∃ i, parse "" = .error i ∧ i.diagnostic.code = "P001") ∧
      (∃ i, parse (Json.array []).compact = .error i ∧ i.diagnostic.code = "P003") ∧
      ∃ w, parse (Json.object looseMembers).compact = .ok w ∧
        convert (.object looseMembers) = .ok w ∧
        ofJson ((Json.object looseMembers).replaceAt [1, 0] .null) = .ok (w.replaceAt 1 [0] {}) ∧
        ofJson ((Json.object looseMembers).replaceAt [1] (.object
          [("steps", .array [.object [("name", .string "a")]]),
            ("type", .string "sub_workflow")])) = .ok w := by
  have hempty : Json.read "" = .error (.upon .endInValue []) := rfl
  have harray : Json.read (Json.array []).compact = .ok (.array []) :=
    Json.read_compact trivial (by decide) rfl
  have hread : Json.read (Json.object looseMembers).compact = .ok (.object looseMembers) :=
    Json.read_compact regular_looseMembers (by decide) rfl
  refine ⟨?_, ?_, ?_⟩
  · have hparse : ∃ i, parse "" = .error i := ⟨_, by rw [parse, hempty]⟩
    obtain ⟨i, hi⟩ := hparse
    obtain ⟨-, hrefused, -, -⟩ := parse_accepts_objects_slotwise ""
    obtain ⟨hcode, -⟩ | ⟨-, j, hj, -⟩ := hrefused i hi
    · exact ⟨i, hi, hcode⟩
    · rw [hempty] at hj
      cases hj
  · have hparse : ∃ i, parse (Json.array []).compact = .error i := ⟨_, by rw [parse, harray]; rfl⟩
    obtain ⟨i, hi⟩ := hparse
    obtain ⟨-, hrefused, -, -⟩ := parse_accepts_objects_slotwise (Json.array []).compact
    obtain ⟨-, f, hf⟩ | ⟨hcode, -⟩ := hrefused i hi
    · rw [harray] at hf
      cases hf
    · exact ⟨i, hi, hcode⟩
  · obtain ⟨haccepted, -, hconvert, hslots⟩ :=
      parse_accepts_objects_slotwise (Json.object looseMembers).compact
    obtain ⟨w, hw⟩ := haccepted.mpr ⟨looseMembers, hread⟩
    have hof : ofJson (.object looseMembers) = .ok w := by rwa [parse, hread] at hw
    have hslotwise := hslots _ w hof
    have hfields : Members.AgreeIn Step.record.keys
        [("x", .null), ("type", .string "sub_workflow"),
          ("steps", .array [.object [("name", .string "a")]])]
        [("steps", .array [.object [("name", .string "a")]]), ("type", .string "sub_workflow")] :=
      .swap _ _ _
    exact ⟨w, hw, by rw [hconvert _ hread, hw], hslotwise.replaced 1 [0] .null,
      hslotwise.rearranged 1 [] _ _ rfl (by decide) hfields⟩

end Workflow

end Flowline
