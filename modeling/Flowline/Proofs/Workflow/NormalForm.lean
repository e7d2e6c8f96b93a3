import Flowline.Proofs.Json.Writing
import Flowline.Proofs.Lowering.Layout

/-!
# The normal form of workflows

Reading a workflow is lenient, so many values read as one workflow. What comes out of reading is
normal: no text is present and empty, and no kind carries the tag of another one. Writing is exact
on normal workflows: a workflow is normal just if it is read back from the value it is written as.
-/

namespace Flowline

/-! ## Normal workflows -/

/-- A kind that carries no tag of a known kind. -/
def TriggerKind.IsNormal (k : TriggerKind) : Prop :=
  ∀ t, k = .other t → (ofTag t).isKnown = false

/-- A kind that carries no tag of a known kind. -/
def StepKind.IsNormal (k : StepKind) : Prop :=
  ∀ t, k = .other t → (ofTag t).isKnown = false

namespace Step

mutual

/-- A step without an empty text and with a normal kind, as are all steps stored below it, whether
or not they are visited. -/
def IsNormal : Step → Prop
  | ⟨id, kind, name, _, steps⟩ =>
    id ≠ some "" ∧ kind.IsNormal ∧ name ≠ some "" ∧ AllNormal steps

/-- Siblings that are normal. -/
def AllNormal : List Step → Prop
  | [] => True
  | s :: ss => IsNormal s ∧ AllNormal ss

end

end Step

/-- A workflow whose trigger and steps are normal. -/
def Workflow.IsNormal (w : Workflow) : Prop :=
  (∀ t, w.trigger = some t → t.kind.IsNormal) ∧ Step.AllNormal w.steps

/-! ## Kinds -/

namespace TriggerKind

theorem ofTag_eq_other_iff {t tag : String} :
    ofTag t = .other tag ↔ (ofTag t).isKnown = false ∧ tag = t := by
  grind [ofTag, isKnown]

theorem isNormal_ofTag (t : String) : (ofTag t).IsNormal := by
  intro tag h
  obtain ⟨hunknown, rfl⟩ := ofTag_eq_other_iff.mp h
  exact hunknown

theorem ofTag_tag {k : TriggerKind} (h : k.IsNormal) : ofTag k.tag = k := by
  cases k with
  | webhook => rfl
  | schedule => rfl
  | manual => rfl
  | other t => exact ofTag_eq_other_iff.mpr ⟨h t rfl, rfl⟩

end TriggerKind

namespace StepKind

theorem ofTag_eq_other_iff {t tag : String} :
    ofTag t = .other tag ↔ (ofTag t).isKnown = false ∧ tag = t := by
  grind [ofTag, isKnown]

theorem isNormal_ofTag (t : String) : (ofTag t).IsNormal := by
  intro tag h
  obtain ⟨hunknown, rfl⟩ := ofTag_eq_other_iff.mp h
  exact hunknown

theorem ofTag_tag {k : StepKind} (h : k.IsNormal) : ofTag k.tag = k := by
  cases k with
  | other t => exact ofTag_eq_other_iff.mpr ⟨h t rfl, rfl⟩
  | _ => rfl

end StepKind

/-! ## Fields -/

/-- No text is read as the empty one: the empty string does not count as present, and any other
value is written with at least one character. -/
theorem Json.text?_ne_empty (j : Json) : j.text? ≠ some "" := by
  have hcompact (v : Json) : some v.compact ≠ some "" :=
    fun h => v.compact_ne_empty (Option.some.inj h)
  unfold text?
  split
  · rename_i hpresent
    split
    · rename_i s
      intro h
      obtain rfl := Option.some.inj h
      exact Bool.false_ne_true hpresent
    · exact hcompact j
  · exact (Option.some_ne_none "").symm

theorem Json.text?_string {t : String} (h : t ≠ "") : (Json.string t).text? = some t := by
  rw [text?, isPresent, decide_eq_true h]
  rfl

/-- Where no text stands for the empty one, every string is its own text. -/
theorem Json.getD_text?_string (t : String) : (Json.string t).text?.getD "" = t := by
  by_cases h : t = ""
  · rw [h]
    rfl
  · rw [text?_string h, Option.getD_some]

namespace Members

theorem text?_ne_empty (ms : Members) (key : String) : ms.text? key ≠ some "" := by
  unfold text?
  cases ms.get? key with
  | none => exact (Option.some_ne_none "").symm
  | some v => exact v.text?_ne_empty

theorem get?_append (ms ns : Members) (key : String) :
    get? (ms ++ ns) key = (ms.get? key).or (ns.get? key) := by
  induction ms with
  | nil => rfl
  | cons m ms ih =>
    rcases m with ⟨k, v⟩
    by_cases h : k = key
    · simp [get?, h]
    · simp [get?, h, ih]

end Members

namespace Step

theorem get?_textMember (key : String) (text : Option String) (other : String) :
    (textMember key text).get? other = if key = other then text.map .string else none := by
  cases text <;> simp [textMember, Members.get?]

theorem text?_of_string {text : Option String} (h : text ≠ some "") :
    (text.map Json.string).bind Json.text? = text := by
  cases text with
  | none => rfl
  | some t => exact Json.text?_string fun hempty => h (congrArg some hempty)

theorem ofMembers_eq (ms : Members) :
    ofMembers ms = (match ms.get? "steps" with | some v => ofSlot v | none => []) := by
  induction ms with
  | nil => rfl
  | cons m ms ih =>
    rcases m with ⟨k, v⟩
    by_cases h : k = "steps"
    · simp [ofMembers, Members.get?, h]
    · simp [ofMembers, Members.get?, h, ih]

/-! ## Steps -/

/-- A step that tells nothing is normal. -/
theorem isNormal_blank : IsNormal {} := by
  rw [IsNormal]
  exact ⟨(Option.some_ne_none "").symm, StepKind.isNormal_ofTag "", (Option.some_ne_none "").symm,
    trivial⟩

mutual

theorem isNormal_ofJson : (j : Json) → (ofJson j).IsNormal
  | .object ms => by
    rw [ofJson, IsNormal]
    exact ⟨Members.text?_ne_empty ms "id", StepKind.isNormal_ofTag _,
      Members.text?_ne_empty ms "name", allNormal_ofMembers ms⟩
  | .null => isNormal_blank
  | .bool _ => isNormal_blank
  | .int _ => isNormal_blank
  | .double _ => isNormal_blank
  | .string _ => isNormal_blank
  | .array _ => isNormal_blank

theorem allNormal_ofMembers : (ms : List (String × Json)) → AllNormal (ofMembers ms)
  | [] => trivial
  | (k, v) :: ms => by
    rw [ofMembers]
    split
    · exact allNormal_ofSlot v
    · exact allNormal_ofMembers ms

theorem allNormal_ofSlot : (j : Json) → AllNormal (ofSlot j)
  | .array items => by
    rw [ofSlot]
    exact allNormal_ofItems items
  | .null => trivial
  | .bool _ => trivial
  | .int _ => trivial
  | .double _ => trivial
  | .string _ => trivial
  | .object _ => trivial

theorem allNormal_ofItems : (js : List Json) → AllNormal (ofItems js)
  | [] => trivial
  | j :: js => ⟨isNormal_ofJson j, allNormal_ofItems js⟩

end

mutual

/-- A normal step is read back from the value it is written as. -/
theorem ofJson_toJson : (s : Step) → s.IsNormal → ofJson s.toJson = s
  | ⟨id, kind, name, config, steps⟩, h => by
    rw [IsNormal] at h
    obtain ⟨hid, hkind, hname, hsteps⟩ := h
    have hbelow : ofItems (toItems steps) = steps := ofItems_toItems steps hsteps
    cases steps with
    | nil =>
      rw [toJson, ofJson, ofMembers_eq]
      simp [Members.text?, Members.object, Members.get?_append, get?_textMember, Members.get?,
        text?_of_string hid, text?_of_string hname, Json.getD_text?_string,
        StepKind.ofTag_tag hkind]
    | cons s ss =>
      rw [toItems] at hbelow
      rw [toJson, ofJson, ofMembers_eq]
      simp [Members.text?, Members.object, Members.get?_append, get?_textMember, Members.get?,
        text?_of_string hid, text?_of_string hname, Json.getD_text?_string,
        StepKind.ofTag_tag hkind, ofSlot, hbelow]

theorem ofItems_toItems : (ss : List Step) → AllNormal ss → ofItems (toItems ss) = ss
  | [], _ => rfl
  | s :: ss, h => by
    rw [toItems, ofItems, ofJson_toJson s h.1, ofItems_toItems ss h.2]

end

end Step

/-! ## Workflows -/

namespace Trigger

theorem isNormal_ofJson? {j : Json} {t : Trigger} (h : ofJson? j = some t) : t.kind.IsNormal := by
  unfold ofJson? at h
  split at h
  · obtain rfl := Option.some.inj h
    exact TriggerKind.isNormal_ofTag _
  · split at h
    · obtain rfl := Option.some.inj h
      exact TriggerKind.isNormal_ofTag ""
    · cases h

theorem ofJson?_toJson {t : Trigger} (h : t.kind.IsNormal) : ofJson? t.toJson = some t := by
  simp [toJson, ofJson?, ofMembers, Members.text?, Members.object, Members.get?,
    Json.getD_text?_string, TriggerKind.ofTag_tag h]

end Trigger

namespace Workflow

theorem isNormal_ofMembers (ms : Members) : (ofMembers ms).IsNormal := by
  refine ⟨?_, Step.allNormal_ofMembers ms⟩
  intro t ht
  obtain ⟨v, -, hv⟩ := Option.bind_eq_some_iff.mp ht
  exact Trigger.isNormal_ofJson? hv

theorem ofJson_toJson {w : Workflow} (h : w.IsNormal) : ofJson w.toJson = .ok w := by
  obtain ⟨htrigger, hsteps⟩ := h
  rcases w with ⟨name, trigger, steps⟩
  rw [toJson, ofJson, ofMembers, Step.ofMembers_eq]
  cases trigger with
  | none =>
    simp [Members.text?, Members.get?, Json.getD_text?_string, Step.ofSlot,
      Step.ofItems_toItems steps hsteps]
  | some t =>
    simp [Members.text?, Members.get?, Json.getD_text?_string, Step.ofSlot,
      Step.ofItems_toItems steps hsteps, Trigger.ofJson?_toJson (htrigger t rfl)]

/-- A workflow is normal just if it is read back from the value it is written as. -/
theorem ofJson_toJson_iff (w : Workflow) : ofJson w.toJson = .ok w ↔ w.IsNormal := by
  constructor
  · intro h
    rw [toJson, ofJson] at h
    rw [← Except.ok.inj h]
    exact isNormal_ofMembers _
  · exact ofJson_toJson

theorem displayName_ne_empty (w : Workflow) : w.displayName ≠ "" := by
  unfold displayName
  split
  · decide
  · assumption

theorem name_ne_empty_of_mem_nodes {w : Workflow} {ids : Nat → Uuid} {n : Node}
    (h : n ∈ (w.graph ids).nodes) : n.name ≠ "" := by
  -- Every node but that of the trigger is the node of a visit.
  have hvisit (row : Nat → Nat) (ids : Nat → Uuid)
      (hn : n ∈ w.visits.mapIdx fun i v => v.node (ids i) (row i)) : n.name ≠ "" := by
    obtain ⟨i, hi, rfl⟩ := List.mem_mapIdx.mp hn
    exact Step.displayName_ne_empty _ _
  rw [nodes_graph] at h
  cases htrigger : w.trigger with
  | none =>
    rw [htrigger] at h
    exact hvisit (fun i => i) ids h
  | some t =>
    rw [htrigger] at h
    rcases List.mem_cons.mp h with rfl | h
    · show triggerName ≠ ""
      decide
    · exact hvisit (fun i => i + 1) (fun i => ids (i + 1)) h

/-- Every object is read as a normal workflow. A workflow is normal just if the value it is written
as is read as the same workflow again, with the members of every configuration in their order; so
reading, writing and reading again is reading once. Every name in the graph of a workflow that was
read is there. -/
theorem lenient_reading_normalizes (w : Workflow) :
    (ofJson w.toJson = .ok w ↔ w.IsNormal) ∧
      ∀ ms : Members, ∃ w', ofJson (.object ms) = .ok w' ∧ w'.IsNormal ∧
        ofJson w'.toJson = ofJson (.object ms) ∧
        ∀ policy ids g, (w'.lower policy ids).outcome = .ok g →
          g.name ≠ "" ∧ ∀ n ∈ g.nodes, n.name ≠ "" := by
  refine ⟨ofJson_toJson_iff w, ?_⟩
  intro ms
  have hnormal := isNormal_ofMembers ms
  refine ⟨ofMembers ms, rfl, hnormal, ofJson_toJson hnormal, ?_⟩
  intro policy ids g hg
  obtain rfl := eq_graph_of_lower hg
  exact ⟨displayName_ne_empty _, fun n => name_ne_empty_of_mem_nodes⟩

-- Zero counts as absent, true is taken as text, and null keeps its slot.
example :
    ofJson (.object [("name", .int 0), ("steps", .array [.null, .object [("name", .bool true)]])]) =
      .ok { steps := [{}, { name := some "true" }] } := by
  rfl

end Workflow

end Flowline
