import Flowline.Proofs.Graph.Overwriting
import Flowline.Proofs.Json.Objects
import Flowline.Proofs.Json.Shapes
import Flowline.Proofs.Lowering.Acceptance
import Mathlib.Data.Finset.Card
import Mathlib.Data.List.Induction

/-!
# Maps in the order of their insertions

Connections are built by inserting one entry after the other, by the program as well as by the text
of an object. `Inserted` says what a map has come to: its names stand in the order in which they
were inserted first, and each has the outputs that were inserted last.
-/

namespace Flowline

open Json

namespace Connections

/-! ## One insertion -/

/-- Setting a key leaves the entries of all other keys as they are and where they are. -/
theorem getElem?_put_of_ne {source other : String} (h : other ≠ source) (outputs v : Outputs)
    (es : List (String × Outputs)) (i : Nat) :
    (put source outputs es)[i]? = some (other, v) ↔ es[i]? = some (other, v) := by
  induction es generalizing i with
  | nil =>
    cases i with
    | zero => simp [put, h.symm]
    | succ i => simp [put]
  | cons e es ih =>
    rcases e with ⟨k, w⟩
    by_cases hk : k = source
    · subst hk
      cases i with
      | zero => simp [put, h.symm]
      | succ i => simp [put]
    · cases i with
      | zero => simp [put, hk]
      | succ i => simpa [put, hk] using ih i

/-! ## Many insertions -/

/-- Inserts one entry after the other. -/
def insertAll (c : Connections) (es : List (String × Outputs)) : Connections :=
  es.foldl (fun c e => c.insert e.1 e.2) c

theorem insertAll_concat (c : Connections) (es : List (String × Outputs)) (e : String × Outputs) :
    c.insertAll (es ++ [e]) = (c.insertAll es).insert e.1 e.2 :=
  List.foldl_concat ..

/-- What entries come to when they are inserted in order. -/
structure Inserted (es : List (String × Outputs)) (c : Connections) : Prop where
  nodup : c.keys.Nodup
  keys : c.keys = (es.map Prod.fst).eraseDups
  get : ∀ source, c.get? source = es.reverse.lookup source

theorem Inserted.insert {es : List (String × Outputs)} {c : Connections} (h : Inserted es c)
    (e : String × Outputs) : Inserted (es ++ [e]) (c.insert e.1 e.2) := by
  refine ⟨?_, ?_, fun source => ?_⟩
  · rw [keys_insert]
    exact nodup_add h.nodup e.1
  · rw [keys_insert, h.keys, List.map_append, List.map_singleton, eraseDups_concat]
  · rw [List.reverse_concat]
    by_cases hsource : e.1 = source
    · rw [← hsource, get?_insert_self]
      exact List.lookup_cons_self.symm
    · rw [get?_insert_of_ne c e.2 hsource, h.get, lookup_cons_of_ne (Ne.symm hsource)]

theorem inserted_insertAll (es : List (String × Outputs)) : Inserted es (insertAll {} es) := by
  induction es using List.reverseRecOn with
  | nil => exact ⟨List.nodup_nil, rfl, fun source => rfl⟩
  | append_singleton es e ih =>
    rw [insertAll_concat]
    exact ih.insert e

namespace Inserted

variable {es : List (String × Outputs)} {c : Connections}

theorem mem_keys_iff (h : Inserted es c) {source : String} :
    source ∈ c.keys ↔ source ∈ es.map Prod.fst := by
  rw [h.keys, List.mem_eraseDups]

theorem contains_iff (h : Inserted es c) {source : String} :
    c.contains source = true ↔ source ∈ es.map Prod.fst := by
  rw [← h.mem_keys_iff, contains]
  cases hget : c.get? source with
  | none => exact iff_of_false Bool.false_ne_true (not_mem_keys hget)
  | some outputs =>
    refine iff_of_true rfl ?_
    by_contra hmem
    cases hget.symm.trans (get?_eq_none hmem)

theorem size_eq (h : Inserted es c) : c.size = (es.map Prod.fst).toFinset.card := by
  have hsame : (es.map Prod.fst).toFinset = c.keys.toFinset := by
    ext source
    rw [List.mem_toFinset, List.mem_toFinset, h.mem_keys_iff]
  calc c.size = c.keys.length := (List.length_map _).symm
    _ = c.keys.toFinset.card := (List.toFinset_card_of_nodup h.nodup).symm
    _ = (es.map Prod.fst).toFinset.card := by rw [hsame]

end Inserted

end Connections

/-! ## Outputs in a text -/

theorem Link.framed_decode : record.decode.Framed := by
  refine Record.framed_decode ?_
  simp only [record, List.forall_mem_cons]
  exact ⟨Field.framed_of (Decoder.string_frames _) _ _ _,
    Field.framed_of (Decoder.string_frames _) _ _ _,
    Field.framed_of (Decoder.natUpTo_frames _ _) _ _ _, fun f hf => absurd hf List.not_mem_nil⟩

theorem Link.shallow_decode : record.decode.Shallow 1 := by
  refine Record.shallow_decode ?_
  simp only [record, List.forall_mem_cons]
  exact ⟨Field.shallow_of (fun _ _ => rfl) _ _ _, Field.shallow_of (fun _ _ => rfl) _ _ _,
    Field.shallow_of (fun _ _ => rfl) _ _ _, fun f hf => absurd hf List.not_mem_nil⟩

theorem Link.decode_gives (budget : Nat) (s : List Char) :
    Gives Regular (record.decode budget s) := by
  have hblank : record.blank.Regular := Nat.zero_le _
  have hstring (budget : Nat) (s : List Char) :
      Gives (fun _ => True) (Decoder.string "a string" budget s) := fun _ _ _ => trivial
  refine Record.decode_gives ?_ hblank budget s
  simp only [record, List.forall_mem_cons]
  refine ⟨Field.gives_of hstring ?_ _ _, Field.gives_of hstring ?_ _ _,
    Field.gives_of (Decoder.natUpTo_gives _ _) ?_ _ _, fun f hf => absurd hf List.not_mem_nil⟩
  · exact fun _ _ hl _ => hl
  · exact fun _ _ hl _ => hl
  · exact fun _ _ _ hn => hn

namespace Outputs

theorem decode_closed (budget : Nat) (s : List Char) : Closed (record.decode budget) s := by
  refine Record.decode_closed ?_ budget s
  simp only [record, List.forall_mem_singleton]
  have hmain := Decoder.framed_list (Decoder.framed_list Link.framed_decode)
  exact Field.framed_of hmain.frames _ _ _

/-- Outputs are nested four levels deep. -/
theorem shallow_decode : record.decode.Shallow 4 := by
  refine Record.shallow_decode ?_
  simp only [record, List.forall_mem_singleton]
  have hmain := Decoder.shallow_list (Decoder.shallow_list Link.shallow_decode)
  exact Field.shallow_of hmain _ _ _

theorem decode_gives (budget : Nat) (s : List Char) : Gives Regular (record.decode budget s) := by
  refine Record.decode_gives ?_ (fun links hlinks => absurd hlinks List.not_mem_nil) budget s
  simp only [record, List.forall_mem_singleton]
  have hmain := Decoder.list_gives (Decoder.list_gives Link.decode_gives)
  exact Field.gives_of hmain (fun _ _ _ h => h) _ _

theorem regular_of_run {text : String} {o : Outputs} (h : record.decode.run text = .ok o) :
    o.Regular :=
  readText_gives (decode_gives maxDepth) h

end Outputs

/-! ## Connections in a text -/

namespace Connections

/-- The text of an entry: that of a name and that of its outputs, with blanks around both. -/
structure EntryText where
  key : String
  value : String
  source : String
  outputs : Outputs
  reads_key : Json.read key = .ok (.string source)
  reads_value : Outputs.record.decode.run value = .ok outputs

namespace EntryText

def text (e : EntryText) : List Char := e.key.toList ++ ':' :: e.value.toList

/-- What is written in the text. -/
def entry (e : EntryText) : String × Outputs := (e.source, e.outputs)

/-- The outputs of an entry stand at fewer levels than on their own, which makes no difference. -/
theorem takesText (e : EntryText) (c : Connections) :
    TakesText (takeEntry (maxDepth - 1)) c e.text (c.insert e.source e.outputs) := by
  obtain ⟨taken, back, hvalue, hback, hcut⟩ := Decoder.exists_taken_of_run Outputs.decode_closed
    Outputs.shallow_decode (by decide) e.reads_value
  rw [text, hvalue]
  exact takesText_of c.insert (fun key s => rfl) e.reads_key hback (hcut _ (by decide))

end EntryText

/-- What was taken for an entry is the text of one. -/
theorem exists_entryText {c c' : Connections} {text : List Char}
    (h : TakesText (takeEntry (maxDepth - 1)) c text c') :
    ∃ e : EntryText, e.text = text ∧ c' = c.insert e.source e.outputs := by
  obtain ⟨key, source, taken, back, outputs, rfl, hkey, hback, hvalue, rfl⟩ :=
    exists_value_of_takesText (fun key s => rfl) (Outputs.decode_closed _) h
  have hshallow : Outputs.record.decode maxDepth = Outputs.record.decode (maxDepth - 1) :=
    (Outputs.shallow_decode _ (by decide)).trans (Outputs.shallow_decode _ (by decide)).symm
  have hrun : Outputs.record.decode.run (String.ofList (taken ++ back)) = .ok outputs := by
    rw [Decoder.run, String.toList_ofList, readText_eq_ok_iff, hshallow]
    exact ⟨back, hvalue back, skipBlanks_eq_nil hback⟩
  refine ⟨⟨key, _, source, outputs, hkey, hrun⟩, ?_, rfl⟩
  rw [EntryText.text, String.toList_ofList]

theorem foldsTexts (es : List EntryText) (c : Connections) :
    FoldsTexts (takeEntry (maxDepth - 1)) c (es.map EntryText.text)
      (c.insertAll (es.map EntryText.entry)) := by
  induction es generalizing c with
  | nil => exact .nil c
  | cons e es ih => exact .cons (e.takesText c) (ih _)

theorem exists_entryTexts {c c' : Connections} {texts : List (List Char)}
    (h : FoldsTexts (takeEntry (maxDepth - 1)) c texts c') :
    ∃ es : List EntryText, es.map EntryText.text = texts ∧
      c' = c.insertAll (es.map EntryText.entry) := by
  induction h with
  | nil c => exact ⟨[], rfl, rfl⟩
  | cons hmember _ ih =>
    obtain ⟨e, rfl, rfl⟩ := exists_entryText hmember
    obtain ⟨es, rfl, rfl⟩ := ih
    exact ⟨e :: es, rfl, rfl⟩

theorem takeEntry_closed (budget : Nat) (c : Connections) (source : String) (s : List Char) :
    Closed (takeEntry budget c source) s :=
  takesMark_colon.closed_after (fun t =>
    .bind_check (Outputs.decode_closed budget t) fun o => .inl ⟨c.insert source o, fun _ => rfl⟩) s

/-- The text of an object whose values are outputs, in any layout. -/
structure ObjectText where
  front : List Char
  entries : List EntryText
  pad : List Char
  back : List Char
  blank_front : ∀ c ∈ front, isBlank c = true
  blank_pad : ∀ c ∈ pad, isBlank c = true
  blank_back : ∀ c ∈ back, isBlank c = true

def ObjectText.text (t : ObjectText) : String :=
  objectText t.front (t.entries.map EntryText.text) t.pad t.back

/-- Connections are read from the texts of objects whose values are outputs, and from no others. -/
theorem run_eq_ok_iff {text : String} {c : Connections} :
    decode.run text = .ok c ↔
      ∃ t : ObjectText, t.text = text ∧ c = insertAll {} (t.entries.map EntryText.entry) := by
  rw [decode, Decoder.run_fold_eq_ok_iff takeEntry_closed]
  constructor
  · rintro ⟨front, texts, pad, back, rfl, hfront, hpad, hback, hfolds⟩
    obtain ⟨es, rfl, rfl⟩ := exists_entryTexts hfolds
    exact ⟨⟨front, es, pad, back, hfront, hpad, hback⟩, rfl, rfl⟩
  · rintro ⟨t, rfl, rfl⟩
    exact ⟨t.front, _, t.pad, t.back, rfl, t.blank_front, t.blank_pad, t.blank_back,
      foldsTexts t.entries {}⟩

theorem regular_insertAll {c : Connections} (h : c.Regular) {es : List (String × Outputs)}
    (hes : ∀ e ∈ es, e.2.Regular) : (c.insertAll es).Regular := by
  induction es generalizing c with
  | nil => exact h
  | cons e es ih =>
    obtain ⟨he, hmore⟩ := List.forall_mem_cons.mp hes
    exact ih (h.insert e.1 he) hmore

/-- Connections in memory are read back from either of their texts. -/
theorem run_toJson {c : Connections} (h : c.Regular) :
    decode.run c.toJson.compact = .ok c ∧ decode.run c.toJson.pretty = .ok c := by
  have hdepth : c.toJson.depth ≤ maxDepth :=
    Nat.le_trans (Graph.depth_connections_le c) (by decide)
  obtain ⟨hcompact, hpretty⟩ := Decoder.run_write (reads_decode h)
  exact ⟨hcompact.value hdepth, hpretty.value hdepth⟩

/-- Connections are a map in the order of insertion. After any insertions into the empty map its
names are distinct and stand in the order in which they were inserted first, and a name has the
outputs that were inserted last. A further insertion returns what the name had just before, and
leaves all other entries as they are and where they are. The text of an object, in any layout and
also with names that are repeated, is read as the map that its members make if they are inserted in
order, and that map is read back from what it is written as. No other text is read. -/
theorem insertions_keep_order :
    (∀ es : List (String × Outputs),
      let c := insertAll {} es
      c.keys.Nodup ∧ c.keys = (es.map Prod.fst).eraseDups ∧
        (∀ source, c.get? source = es.reverse.lookup source) ∧
        (∀ source, c.contains source = (c.get? source).isSome ∧
          (c.contains source = true ↔ source ∈ es.map Prod.fst)) ∧
        c.size = (es.map Prod.fst).toFinset.card ∧
        ∀ source outputs,
          c.replace source outputs = (c.get? source, insertAll {} (es ++ [(source, outputs)])) ∧
            ∀ other, other ≠ source → ∀ (i : Nat) v,
              (c.replace source outputs).2.entries[i]? = some (other, v) ↔
                c.entries[i]? = some (other, v)) ∧
      (∀ t : ObjectText,
        let c := insertAll {} (t.entries.map EntryText.entry)
        decode.run t.text = .ok c ∧
          decode.run c.toJson.compact = .ok c ∧ decode.run c.toJson.pretty = .ok c) ∧
      ∀ text c, decode.run text = .ok c → ∃ t : ObjectText, t.text = text := by
  refine ⟨fun es => ?_, fun t => ?_, fun text c h => ?_⟩
  · intro c
    have h : Inserted es c := inserted_insertAll es
    refine ⟨h.nodup, h.keys, h.get, fun source => ⟨rfl, h.contains_iff⟩, h.size_eq, ?_⟩
    intro source outputs
    rw [replace_eq, insertAll_concat]
    refine ⟨rfl, fun other hother i v => ?_⟩
    exact getElem?_put_of_ne hother outputs v c.entries i
  · intro c
    have hempty : Regular {} := ⟨List.nodup_nil, fun _ hmem => absurd hmem List.not_mem_nil⟩
    have houtputs : ∀ e ∈ t.entries.map EntryText.entry, e.2.Regular :=
      List.forall_mem_map.mpr fun e _ => Outputs.regular_of_run e.reads_value
    exact ⟨run_eq_ok_iff.mpr ⟨t, rfl, rfl⟩, run_toJson (regular_insertAll hempty houtputs)⟩
  · obtain ⟨t, ht, -⟩ := run_eq_ok_iff.mp h
    exact ⟨t, ht⟩

theorem insertions_keep_order_reinserted :
    let es : List (String × Outputs) := [("A", .single "B"), ("B", .single "C"), ("A", .single "D")]
    let c := insertAll {} es
    c.keys.Nodup ∧ c.keys = ["A", "B"] ∧ c.get? "A" = some (.single "D") ∧
      (c.contains "C" = (c.get? "C").isSome ∧ (c.contains "C" = true ↔ "C" ∈ es.map Prod.fst)) ∧
      c.size = 2 ∧ (c.replace "A" (.single "E")).1 = some (.single "D") ∧
      ("B" ≠ "A" ∧ (c.replace "A" (.single "E")).2.entries[1]? = some ("B", .single "C")) ∧
      decode.run (" \x7b\"A\" :[[[[\"B\",\"main\",0]]]], " ++
        "\"B\":\x7b\"note\":[1e999],\"main\":[[[\"C\",\"main\",0]]]\x7d\n," ++
        "\"\\u0041\": [[[[\"D\",\"main\",0]]]] \x7d") = .ok c ∧
      (decode.run c.toJson.compact = .ok c ∧ decode.run c.toJson.pretty = .ok c) ∧
      ∃ t : ObjectText, t.text = c.toJson.pretty := by
  intro es c
  let first : EntryText :=
    ⟨"\"A\" ", "[[[[\"B\",\"main\",0]]]]", "A", .single "B", by decide +kernel, by decide +kernel⟩
  let second : EntryText :=
    ⟨" \"B\"", "\x7b\"note\":[1e999],\"main\":[[[\"C\",\"main\",0]]]\x7d\n", "B", .single "C",
      by decide +kernel, by decide +kernel⟩
  let third : EntryText :=
    ⟨"\"\\u0041\"", " [[[[\"D\",\"main\",0]]]] ", "A", .single "D", by decide +kernel,
      by decide +kernel⟩
  let t : ObjectText :=
    ⟨[' '], [first, second, third], [], [], List.forall_mem_singleton.mpr rfl,
      List.forall_mem_nil _, List.forall_mem_nil _⟩
  obtain ⟨hnodup, hkeys, hget, hcontains, hsize, hreplace⟩ := insertions_keep_order.1 es
  obtain ⟨hread, hcompact, hpretty⟩ := insertions_keep_order.2.1 t
  obtain ⟨hreturn, hothers⟩ := hreplace "A" (.single "E")
  have htext : t.text = " \x7b\"A\" :[[[[\"B\",\"main\",0]]]], " ++
      "\"B\":\x7b\"note\":[1e999],\"main\":[[[\"C\",\"main\",0]]]\x7d\n," ++
      "\"\\u0041\": [[[[\"D\",\"main\",0]]]] \x7d" := by decide +kernel
  rw [htext] at hread
  have hprevious : (c.replace "A" (.single "E")).1 = some (.single "D") := by
    rw [hreturn]
    exact hget "A"
  refine ⟨hnodup, hkeys, hget "A", hcontains "C", hsize.trans (by decide), hprevious,
    ⟨by decide, ?_⟩, hread, ⟨hcompact, hpretty⟩, insertions_keep_order.2.2 _ c hpretty⟩
  exact (hothers "B" (by decide) 1 (.single "C")).mpr rfl

end Connections

end Flowline
