import Flowline.Json.Shape
import Flowline.Proofs.Json.RoundTrip
import Flowline.Proofs.Lists

/-!
# Decoding what was written

A decoder reads a value, in the sense of `Decoder.Reads`, if it reads the text of that value just if
the value is not nested too deep. Each way of building decoders keeps this: lists, folds over the
members of an object, and records, whose fields are read in the order in which they are written.
-/

namespace Flowline

namespace Json

/-- A decoder that reads the text of a value at every depth that the nesting of the value allows. -/
def Decoder.Reads {α : Type} (decode : Decoder α) (j : Json) (x : α) : Prop :=
  ∀ budget, ReadsAt budget (decode budget) j x

namespace Decoder

variable {α σ : Type} {decode : Decoder α}

/-- The text of a value, in either layout, is decoded just if it is nested no deeper than a text may
be. -/
theorem run_write {j : Json} {x : α} (h : decode.Reads j x) :
    Yields (j.depth ≤ maxDepth) (decode.run j.compact) x ∧
      Yields (j.depth ≤ maxDepth) (decode.run j.pretty) x := by
  simp only [run, compact, pretty, String.toList_ofList]
  exact ⟨readText_write (h maxDepth) .compact, readText_write (h maxDepth) .pretty⟩

/-! ## Scalars -/

theorem reads_value {j : Json} (hj : j.Regular) (hd : ∀ d ∈ j.doubles, d.Readable) :
    value.Reads j j.reread :=
  readsNested_readValue.readsAt j hj hd

theorem reads_string (wanted t : String) : (string wanted).Reads (.string t) t := by
  intro budget layout level s rest _ hskip
  rw [write, quoted_append] at hskip
  have hread : string wanted budget s = .ok (t, rest) := by
    simp only [string, hskip, stringRest_quoted]
  exact .of_ok (Nat.zero_le budget) hread

/-- A whole number begins with a minus or a digit. -/
theorem intText_eq_cons (n : Int) :
    ∃ c cs, intText n = c :: cs ∧ (c = '-' ∨ isDigit c = true) := by
  cases n with
  | ofNat n =>
    obtain ⟨c, cs, hdigits, hc⟩ := toDigits_eq_cons n
    exact ⟨c, cs, hdigits, .inr (by rwa [isDigit_eq])⟩
  | negSucc n => exact ⟨'-', _, rfl, .inl rfl⟩

theorem reads_int {low high n : Int} (wanted : String) (hn : (Json.int n).Regular)
    (hbounds : low ≤ n ∧ n ≤ high) : (int low high wanted).Reads (.int n) n := by
  intro budget layout level s rest hrest hskip
  have hread := valueWith_scalar none (j := .int n) trivial hn (fun _ hd => nomatch hd) hrest
    (skipBlanks_write layout level (.int n) rest)
  obtain ⟨c, cs, htext, hc⟩ := intText_eq_cons n
  rw [write, htext, List.cons_append] at hread hskip
  have hint : int low high wanted budget s = .ok (n, rest) := by
    simp only [int, hskip, if_pos hc, hread, reread]
    exact if_pos hbounds
  exact .of_ok (Nat.zero_le budget) hint

theorem reads_natUpTo {high n : Nat} (wanted : String) (hhigh : high ≤ maxWhole) (hn : n ≤ high) :
    (natUpTo high wanted).Reads (.int n) n := by
  intro budget layout level s rest hrest hskip
  have hregular : (Json.int n).Regular := ⟨by omega, by omega⟩
  have hread := reads_int wanted hregular ⟨Int.natCast_nonneg n, Int.ofNat_le.mpr hn⟩ budget layout
    level s rest hrest hskip
  exact hread.map rfl

theorem reads_option_null : (option decode).Reads .null none := by
  intro budget layout level s rest _ hskip
  have hread : option decode budget s = .ok (none, rest) := by
    simp [option, hskip, write, word, bind, Except.bind]
  exact .of_ok (Nat.zero_le budget) hread

theorem reads_option {j : Json} {x : α} (hnull : j ≠ .null) (h : decode.Reads j x) :
    (option decode).Reads j (some x) := by
  intro budget layout level s rest hrest hskip
  obtain ⟨c, cs, hwrite, hc⟩ := write_eq_cons_of_ne_null layout level hnull
  have hread : option decode budget s =
      (decode budget (write layout level j ++ rest) >>= fun p => .ok (some p.1, p.2)) := by
    rw [hwrite, List.cons_append] at hskip ⊢
    unfold option
    rw [hskip]
    split
    · rename_i heq
      exact absurd (List.cons.inj heq).1 hc
    · rfl
  rw [hread]
  exact (h budget layout level _ rest hrest (skipBlanks_write layout level j rest)).map rfl

/-! ## Lists and folds -/

theorem yields_deeper {bracket : Char} {inner : Decoder α} {depth : Nat} {s : List Char}
    {y : α × List Char} (h : ∀ budget, Yields (depth ≤ budget) (inner budget s) y) (budget : Nat) :
    Yields (depth + 1 ≤ budget) (deeper bracket inner budget s) y := by
  cases budget with
  | zero => exact .of_error (Nat.not_succ_le_zero depth) rfl
  | succ budget => exact (h budget).congr Nat.succ_le_succ_iff.symm

theorem reads_list {ι : Type} {is : List ι} {written : ι → Json} {value : ι → α}
    (h : ∀ i ∈ is, decode.Reads (written i) (value i)) :
    (list decode).Reads (.array (is.map written)) (is.map value) := by
  intro budget layout level s rest _ hskip
  rw [write, List.cons_append, List.append_assoc] at hskip
  have hread : list decode budget s = deeper '[' (fun b => arrayRest (decode b)) budget
      (writeItems layout level (is.map written) ++ ']' :: rest) := by
    simp only [list, hskip]
    rfl
  rw [hread]
  exact yields_deeper (fun budget =>
    arrayRest_write layout level is (fun i hi => h i hi budget) rest) budget

theorem reads_fold {step : Nat → σ → String → Reader σ} {start x : σ} {ms : Members}
    (wanted : String) (h : ∀ budget, Folds budget (step budget) start ms x) :
    (fold wanted step start).Reads (.object ms) x := by
  intro budget layout level s rest _ hskip
  rw [write, List.cons_append, List.append_assoc] at hskip
  have hread : fold wanted step start budget s = deeper '\x7b'
      (fun b => objectRest (step b) start) budget
      (writeMembers layout level ms ++ '\x7d' :: rest) := by
    simp only [fold, hskip]
    rfl
  rw [hread]
  exact yields_deeper (fun budget => objectRest_write layout level (h budget) rest) budget

end Decoder

/-! ## Records -/

section Records

variable {σ : Type}

/-- A field that reads a value into a record. -/
def Field.Takes (f : Field σ) (j : Json) (x y : σ) : Prop :=
  ∀ budget, ReadsAt budget (f.take budget x) j y

theorem Field.takes_of {α : Type} {decode : Decoder α} {j : Json} {v : α} (h : decode.Reads j v)
    (key : String) (presence : Presence) (set : σ → α → σ) (x : σ) :
    (Field.of key presence decode set).Takes j x (set x v) := by
  intro budget layout level s rest hrest hskip
  exact (h budget layout level s rest hrest hskip).map rfl

namespace Record

/-- How a record changes when its fields take values in order. -/
inductive Fits : List (Field σ) → List Json → σ → σ → Prop where
  | nil (x : σ) : Fits [] [] x x
  | cons {f : Field σ} {fs : List (Field σ)} {j : Json} {js : List Json} {x y z : σ}
      (hfield : f.Takes j x y) (hmore : Fits fs js y z) : Fits (f :: fs) (j :: js) x z

/-- The members that fields are written as. -/
def members (fs : List (Field σ)) (js : List Json) : Members := (fs.map Field.key).zip js

section Objects

variable {r : Record σ}

theorem takesMember_takeMember (hkeys : (r.fields.map Field.key).Nodup) {f : Field σ}
    (hf : f ∈ r.fields) {j : Json} {x y : σ} (hfield : f.Takes j x y) {seen : List String}
    (hnew : f.key ∉ seen) (budget : Nat) :
    TakesMember budget (r.takeMember budget (seen, x) f.key) j (f.key :: seen, y) := by
  refine takesMember_of (fun y => (f.key :: seen, y)) (fun s => ?_) (hfield budget)
  simp only [takeMember, find?_of_nodup Field.key hkeys hf, if_neg hnew]

/-- Every key is seen once, and the last one is seen last. -/
theorem folds_takeMember (hkeys : (r.fields.map Field.key).Nodup) (budget : Nat)
    {fs : List (Field σ)} {js : List Json} {x y : σ} (h : Fits fs js x y) :
    ∀ (seen : List String), (∀ f ∈ fs, f ∈ r.fields) →
      (seen.reverse ++ fs.map Field.key).Nodup →
      Folds budget (r.takeMember budget) (seen, x) (members fs js)
        ((fs.map Field.key).reverse ++ seen, y) := by
  induction h with
  | nil x => exact fun _ _ _ => .nil _
  | @cons f fs j js x y z hfield _ ih =>
    intro seen hfs hnodup
    obtain ⟨hf, hmore⟩ := List.forall_mem_cons.mp hfs
    have hnew : f.key ∉ seen := by
      intro hseen
      exact (List.nodup_append.mp hnodup).2.2 f.key (List.mem_reverse.mpr hseen) f.key
        List.mem_cons_self rfl
    have hrest : ((f.key :: seen).reverse ++ fs.map Field.key).Nodup := by
      rwa [List.reverse_cons, List.append_assoc, List.singleton_append]
    have hfolds := ih _ hmore hrest
    rw [List.map_cons, List.reverse_cons, List.append_assoc, List.singleton_append]
    exact .cons (takesMember_takeMember hkeys hf hfield hnew budget) hfolds

theorem missing?_of_seen {seen : List String} (h : ∀ f ∈ r.fields, f.key ∈ seen) :
    r.missing? seen = none := by
  rw [missing?, List.find?_eq_none]
  intro f hf
  simp [h f hf]

/-- A record is read back from the object of its fields. -/
theorem reads_decode (hkeys : (r.fields.map Field.key).Nodup) {js : List Json} {x : σ}
    (h : Fits r.fields js r.blank x) : r.decode.Reads (.object (members r.fields js)) x := by
  intro budget layout level s rest _ hskip
  rw [write, List.cons_append, List.append_assoc] at hskip
  have hread : r.decode budget s = Decoder.deeper '\x7b' r.ofObject budget
      (writeMembers layout level (members r.fields js) ++ '\x7d' :: rest) := by
    simp only [decode, hskip]
    rfl
  have hmissing : r.missing? ((r.fields.map Field.key).reverse ++ []) = none := by
    refine missing?_of_seen fun f hf => ?_
    rw [List.append_nil, List.mem_reverse]
    exact List.mem_map_of_mem hf
  rw [hread]
  refine Decoder.yields_deeper (fun budget => ?_) budget
  have hfolds := folds_takeMember hkeys budget h [] (fun _ hf => hf) hkeys
  refine Yields.map (objectRest_write layout level hfolds rest) ?_
  simp only [hmissing]

end Objects

section Arrays

variable {r : Record σ}

theorem takeItems_write (layout : Layout) (level budget : Nat) {fs : List (Field σ)}
    {js : List Json} {x y : σ} (h : Fits fs js x y) (rest : List Char) :
    ∀ index, Yields (depthItems js ≤ budget)
      (r.takeItems budget fs index false x (writeMoreItems layout level js ++ ']' :: rest))
      (y, layout.gap level ++ ']' :: rest) := by
  induction h with
  | nil x => exact fun _ => .of_ok (Nat.zero_le budget) rfl
  | @cons f fs j js x y z hfield _ ih =>
    intro index
    have hnext := nextItem_comma layout (level + 1) (level + 1) j
      (writeMoreItems layout level js ++ ']' :: rest)
    have hread := hfield budget layout (level + 1) _ _ (stops_moreItems layout level js rest)
      (skipBlanks_write layout (level + 1) j _)
    simp only [writeMoreItems, List.cons_append, List.append_assoc, takeItems, hnext]
    exact (hread.bind (ih (index + 1))).congr Nat.max_le.symm

/-- The items are taken up to the closing bracket, behind which the text goes on. -/
theorem takeItems_first (layout : Layout) (level budget : Nat) {fs : List (Field σ)}
    {js : List Json} {x y : σ} (h : Fits fs js x y) (rest : List Char) :
    ∃ behind, closeArray behind = .ok rest ∧
      Yields (depthItems js ≤ budget)
        (r.takeItems budget fs 0 true x (writeItems layout level js ++ ']' :: rest))
        (y, behind) := by
  cases h with
  | nil => exact ⟨']' :: rest, rfl, .of_ok (Nat.zero_le budget) rfl⟩
  | @cons f fs j js x y z hfield hmore =>
    have hbracket : isBlank ']' = false := rfl
    have hclose : closeArray (layout.gap level ++ ']' :: rest) = .ok rest := by
      simp [closeArray, skipBlanks_gap_cons layout level hbracket]
    have hnext := nextItem_write layout (level + 1) (level + 1) j
      (writeMoreItems layout level js ++ ']' :: rest)
    have hread := hfield budget layout (level + 1) _ _ (stops_moreItems layout level js rest)
      (skipBlanks_write layout (level + 1) j _)
    refine ⟨_, hclose, ?_⟩
    simp only [writeItems, List.append_assoc, takeItems, hnext]
    exact (hread.bind (takeItems_write layout level budget hmore rest 1)).congr Nat.max_le.symm

/-- A record is read back from the array of its fields. -/
theorem reads_decodeArray {js : List Json} {x : σ} (h : Fits r.fields js r.blank x) :
    r.decodeArray.Reads (.array js) x := by
  intro budget layout level s rest _ hskip
  rw [write, List.cons_append, List.append_assoc] at hskip
  have hread : r.decodeArray budget s = Decoder.deeper '[' r.ofArray budget
      (writeItems layout level js ++ ']' :: rest) := by
    simp only [decodeArray, hskip]
    rfl
  rw [hread]
  refine Decoder.yields_deeper (fun budget => ?_) budget
  obtain ⟨behind, hclose, hitems⟩ := takeItems_first (r := r) layout level budget h rest
  refine Yields.map hitems ?_
  simp only [hclose]
  rfl

end Arrays

end Record

end Records

end Json

end Flowline
