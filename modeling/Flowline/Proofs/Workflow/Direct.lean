import Flowline.Proofs.Json.Records
import Flowline.Proofs.Workflow.Configs
import Flowline.Proofs.Workflow.Conversion

/-!
# Workflows read without a value in between

A workflow is read from the value of a text. It can also be decoded from the text itself, field by
field, as a record. Each field then reads a value of its own, so that the two ways differ only in
what they do about a key that is repeated in the outermost object: the value has the last of its
members, and the record refuses the second one, if it knows the key.
-/

namespace Flowline

namespace Workflow

open Json

theorem presence_record : ∀ f ∈ record.fields, f.presence ≠ .required := by
  decide

/-- Every field reads a value and makes the same of it as it makes of a member. -/
theorem uses_withField {budget : Nat} {f : Json.Field Workflow} (hf : f ∈ record.fields)
    (v : Json) : f.Uses (readTree budget) budget v fun w => w.withField f.key v.settled := by
  have hvalue (s rest : List Char) (h : readTree budget s = .ok (v, rest)) :
      Decoder.value budget s = .ok (v.settled, rest) := by
    show readValue budget s = _
    rw [readValue_eq_settled, h]
    rfl
  simp only [record, List.mem_cons, List.not_mem_nil, or_false] at hf
  rcases hf with rfl | rfl | rfl
  · exact Field.uses_of hvalue "name" .defaulted _
  · exact Field.uses_of hvalue "trigger" .defaulted _
  · exact Field.uses_of hvalue "steps" .defaulted _

/-- Known members that are not repeated, taken in order, make the workflow of the value. -/
theorem foldl_settled {ms : Members} (h : (ms.only record.keys).keys.Nodup) :
    (ms.only record.keys).foldl (fun w m => w.withField m.1 m.2.settled) {} =
      ofMembers (Members.ofPairs (settledMembers ms)) := by
  have hsettled : Members.only (settledMembers ms) record.keys =
      (ms.only record.keys).map fun m => (m.1, m.2.settled) := by
    rw [settledMembers_eq_map, Members.only_map]
  have hkeys : (Members.only (settledMembers ms) record.keys).keys.Nodup := by
    rw [hsettled, Members.keys, List.map_map]
    exact h
  have hfold := foldl_only (fun w _ v hk => withField_of_unknown w v hk)
    (Members.ofPairs (settledMembers ms)) {}
  rw [foldl_withField (Members.nodup_keys_ofPairs _), Members.only_ofPairs hkeys, hsettled,
    List.foldl_map] at hfold
  exact hfold

/-- The outcome of decoding a text whose value is an object, in terms of its members. -/
theorem run_of_tree {text : String} {ms : Members} (h : tree text = .ok (.object ms)) :
    ((∀ key ∈ record.keys, ms.keys.count key ≤ 1) →
      record.decode.run text = .ok (ofMembers (Members.ofPairs (settledMembers ms)))) ∧
    (¬(∀ key ∈ record.keys, ms.keys.count key ≤ 1) →
      ∃ key ∈ record.keys, 2 ≤ ms.keys.count key ∧
        ∃ behind, record.decode.run text = .error (.unfit (.duplicateField key) behind)) := by
  obtain ⟨hvalue, hfault⟩ := record.run_follows (fun w key v => w.withField key v.settled)
    presence_record h fun levels hlevels m _ f hf hkey => by
      obtain rfl : levels = maxDepth - 1 := (Nat.succ.inj hlevels).symm
      exact hkey ▸ uses_withField hf m.2
  rw [← Members.nodup_keys_only_iff]
  constructor
  · intro honce
    refine hvalue _ ?_
    rw [Record.makeChanges_changes honce]
    exact congrArg Except.ok (foldl_settled honce)
  · intro hrepeated
    obtain ⟨key, hkey, hcount, hrefused⟩ := Record.makeChanges_changes_duplicate hrepeated _
    exact ⟨key, hkey, hcount, hfault _ hrefused⟩

/-- Decoding a text that is accepted as a workflow gives the same workflow if none of its keys is
repeated in the outermost object. If one is, decoding refuses a field that is there twice, while the
workflow has what is said last. Keys that are repeated anywhere else, and members that mean nothing,
make no difference. -/
theorem decoding_agrees_unless_repeated {text : String} {w : Workflow} (h : parse text = .ok w) :
    ∃ ms : Members, tree text = .ok (.object ms) ∧
      (∃ last : Members, w = ofMembers last ∧
        ∀ key, last.get? key = (ms.reverse.lookup key).map settled) ∧
      ((∀ key ∈ ["name", "trigger", "steps"], ms.keys.count key ≤ 1) →
        record.decode.run text = .ok w) ∧
      ∀ key ∈ ["name", "trigger", "steps"], 2 ≤ ms.keys.count key →
        ∃ twice ∈ ["name", "trigger", "steps"], 2 ≤ ms.keys.count twice ∧
          ∃ behind, record.decode.run text = .error (.unfit (.duplicateField twice) behind) := by
  obtain ⟨last, hread, rfl⟩ := exists_of_parse h
  obtain ⟨ms, htree, rfl⟩ := exists_tree_of_read hread
  obtain ⟨honce, hrepeated⟩ := run_of_tree htree
  refine ⟨ms, htree, ⟨_, rfl, fun key => ?_⟩, honce, fun key hkey hcount => ?_⟩
  · rw [Members.get?_ofPairs, settledMembers_eq_map, ← List.map_reverse, lookup_map]
  · exact hrepeated fun h => absurd (h key hkey) (Nat.not_le_of_lt hcount)

/-- Keys that are repeated below the outermost object, and the name of a workflow said twice. -/
theorem decoding_agrees_unless_repeated_name :
    let below := "\x7b\"steps\":[\x7b\"id\":\"1\",\"type\":\"action\",\"id\":\"2\"\x7d]," ++
      "\"note\":1,\"note\":[]\x7d"
    let twice := "\x7b\"name\":\"A\",\"steps\":[],\"name\":\"B\"\x7d"
    let w : Workflow := { steps := [{ id := some "2", kind := .action }] }
    (parse below = .ok w ∧ record.decode.run below = .ok w) ∧
      parse twice = .ok { name := "B" } ∧
        ∃ key ∈ ["name", "trigger", "steps"], ∃ behind,
          record.decode.run twice = .error (.unfit (.duplicateField key) behind) := by
  intro below twice w
  have hbelow : Json.read below = .ok (.object [("steps", .array [.object
      [("id", .string "2"), ("type", .string "action")]]), ("note", .array [])]) := by
    decide +kernel
  have htwice : Json.read twice = .ok (.object [("name", .string "B"), ("steps", .array [])]) := by
    decide +kernel
  have hparse : parse below = .ok w := by
    rw [parse, hbelow]
    rfl
  have hparse' : parse twice = .ok { name := "B" } := by
    rw [parse, htwice]
    rfl
  obtain ⟨ms, htree, -, honce, -⟩ := decoding_agrees_unless_repeated hparse
  obtain ⟨ms', htree', -, -, hrepeated⟩ := decoding_agrees_unless_repeated hparse'
  have hms : tree below = .ok (.object [("steps", .array [.object
      [("id", .string "1"), ("type", .string "action"), ("id", .string "2")]]),
      ("note", .int 1), ("note", .array [])]) := by
    decide +kernel
  have hms' : tree twice = .ok (.object
      [("name", .string "A"), ("steps", .array []), ("name", .string "B")]) := by
    decide +kernel
  rw [htree] at hms
  rw [htree'] at hms'
  cases hms
  cases hms'
  obtain ⟨key, hkey, -, hrefused⟩ := hrepeated "name" (by decide) (by decide)
  exact ⟨⟨hparse, honce (by decide)⟩, hparse', key, hkey, hrefused⟩

end Workflow

end Flowline
