import Flowline.Proofs.Json.Containers
import Flowline.Proofs.Json.Doubles

/-!
# Reading values that were written

A value is read back from its text just if it is nested no deeper than the reader allows. What is
read is the same value up to its doubles: the text of a double need not be read as that double, but
may be read as a neighbour, which `Json.reread` puts in its place.
-/

namespace Flowline

/-! ## Doubles -/

namespace Binary64

/-- The double that the text of a double is read as. -/
def reread (d : Binary64) : Binary64 :=
  match Json.read (String.ofList d.text) with
  | .ok (.double x) => x
  | _ => d

/-- A double whose text can be read. -/
def Readable (d : Binary64) : Prop := Json.read (String.ofList d.text) = .ok (.double d.reread)

theorem reread_eq {d x : Binary64} (h : Json.read (String.ofList d.text) = .ok (.double x)) :
    d.reread = x := by
  simp only [reread, h]

theorem readable_of_read {d x : Binary64}
    (h : Json.read (String.ofList d.text) = .ok (.double x)) : d.Readable := by
  rw [Readable, reread_eq h, h]

end Binary64

namespace Json

/-! ## Values -/

mutual

/-- A value that can be held in memory: its whole numbers have sixty-four bits, its doubles are
finite, and the keys of its objects are distinct. -/
def Regular : Json → Prop
  | .int n => -(maxBelowZero : Int) ≤ n ∧ n ≤ maxWhole
  | .double d => Binary64.IsMagnitude d.magnitude
  | .array items => RegularItems items
  | .object members => (Members.keys members).Nodup ∧ RegularMembers members
  | _ => True

/-- Items that can be held. -/
def RegularItems : List Json → Prop
  | [] => True
  | j :: js => Regular j ∧ RegularItems js

/-- Members whose values can be held. -/
def RegularMembers : List (String × Json) → Prop
  | [] => True
  | (_, j) :: ms => Regular j ∧ RegularMembers ms

end

mutual

/-- The doubles in a value, in the order in which they are written. -/
def doubles : Json → List Binary64
  | .double d => [d]
  | .array items => doublesItems items
  | .object members => doublesMembers members
  | _ => []

/-- The doubles in items. -/
def doublesItems : List Json → List Binary64
  | [] => []
  | j :: js => doubles j ++ doublesItems js

/-- The doubles in the values of members. -/
def doublesMembers : List (String × Json) → List Binary64
  | [] => []
  | (_, j) :: ms => doubles j ++ doublesMembers ms

end

mutual

/-- The value with every double as its text is read. -/
def reread : Json → Json
  | .double d => .double d.reread
  | .array items => .array (rereadItems items)
  | .object members => .object (rereadMembers members)
  | j => j

/-- The items with every double as its text is read. -/
def rereadItems : List Json → List Json
  | [] => []
  | j :: js => reread j :: rereadItems js

/-- The members with every double as its text is read. -/
def rereadMembers : List (String × Json) → List (String × Json)
  | [] => []
  | (k, j) :: ms => (k, reread j) :: rereadMembers ms

end

theorem rereadItems_eq_map (js : List Json) : rereadItems js = js.map reread := by
  induction js with
  | nil => rfl
  | cons j js ih => rw [rereadItems, ih, List.map_cons]

/-! ## Scalars -/

theorem valueWith_minus (inner : Option (Reader Json)) {s cs : List Char}
    (h : skipBlanks s = '-' :: cs) : valueWith inner s = number true cs := by
  simp [valueWith, h]

theorem valueWith_digit (inner : Option (Reader Json)) {s cs : List Char} {c : Char}
    (h : skipBlanks s = c :: cs) (hc : c.isDigit = true) :
    valueWith inner s = number false (c :: cs) := by
  have hne (e : Char) (he : e.isDigit = false) : c ≠ e := by
    rintro rfl
    rw [hc] at he
    cases he
  simp [valueWith, h, hc, hne 'n' rfl, hne 't' rfl, hne 'f' rfl, hne '-' rfl]

theorem valueWith_double (inner : Option (Reader Json)) (d : Binary64) {s rest : List Char}
    (h : skipBlanks s = d.text ++ rest) :
    valueWith inner s = number d.negative (d.magnitudeText ++ rest) := by
  rw [d.text_eq] at h
  cases hsign : d.negative with
  | true =>
    rw [hsign, if_pos rfl, List.cons_append] at h
    exact valueWith_minus inner h
  | false =>
    obtain ⟨c, cs, htext, hc⟩ := d.magnitudeText_eq_cons
    rw [hsign, if_neg Bool.false_ne_true] at h
    rw [htext, List.cons_append] at h ⊢
    exact valueWith_digit inner h hc

theorem readValue_eq (budget : Nat) : ∃ inner, readValue budget = valueWith inner := by
  cases budget with
  | zero => exact ⟨none, rfl⟩
  | succ budget => exact ⟨some (readValue budget), rfl⟩

/-- The text of a double is read like the number in it. -/
theorem read_text (d : Binary64) :
    read (String.ofList d.text) = readText (number d.negative) d.magnitudeText := by
  obtain ⟨inner, hinner⟩ := readValue_eq maxDepth
  have hskip : skipBlanks d.text = d.text ++ [] := by
    have hwrite := skipBlanks_write .compact 0 (.double d) []
    rwa [List.append_nil] at hwrite ⊢
  have hread := valueWith_double inner d hskip
  rw [List.append_nil] at hread
  rw [read, String.toList_ofList, readText, hinner, hread, readText]

/-- A double that can be read is read from all of its text. -/
theorem number_of_readable {d : Binary64} (h : d.Readable) :
    number d.negative d.magnitudeText = .ok (.double d.reread, []) := by
  rw [Binary64.Readable, read_text, readText] at h
  cases hnumber : number d.negative d.magnitudeText with
  | error f =>
    rw [hnumber] at h
    cases h
  | ok r =>
    obtain ⟨v, t⟩ := r
    obtain ⟨⟨x, rfl⟩, rfl⟩ := Binary64.number_magnitudeText_end hnumber
    rw [hnumber] at h
    rw [Except.ok.inj h]

theorem whole_true {n : Nat} (h : n + 1 ≤ maxBelowZero) :
    whole true (n + 1) = .int (.negSucc n) := by
  have hfits : ¬(n + 1 = 0 ∨ maxBelowZero < n + 1) := by omega
  simp only [whole, Bool.not_true, Bool.false_eq_true, if_false, if_neg hfits]
  rfl

/-- A value that is no array and no object. -/
def IsScalar : Json → Prop
  | .array _ => False
  | .object _ => False
  | _ => True

/-- A scalar is read back at every depth. -/
theorem valueWith_scalar (inner : Option (Reader Json)) {j : Json} (hscalar : j.IsScalar)
    (hj : j.Regular) (hd : ∀ d ∈ j.doubles, d.Readable) {layout : Layout} {level : Nat}
    {s rest : List Char} (hrest : Stops rest) (h : skipBlanks s = write layout level j ++ rest) :
    valueWith inner s = .ok (j.reread, rest) := by
  cases j with
  | null => simp [valueWith, h, write, word, reread, bind, Except.bind]
  | bool b =>
    cases b with
    | true => simp [valueWith, h, write, word, reread, bind, Except.bind]
    | false => simp [valueWith, h, write, word, reread, bind, Except.bind]
  | int n =>
    cases n with
    | ofNat n =>
      have hn : n ≤ maxWhole := Int.ofNat_le.mp hj.2
      have hread := number_append hrest false _ _ _ (number_toDigits false hn)
      obtain ⟨c, cs, hdigits, hc⟩ := toDigits_eq_cons n
      rw [write, intText, hdigits, List.cons_append] at h
      rw [hdigits, List.cons_append] at hread
      exact (valueWith_digit inner h hc).trans hread
    | negSucc n =>
      have hbelow : n + 1 ≤ maxBelowZero := by
        have hlow := hj.1
        omega
      have hn : n + 1 ≤ maxWhole := Nat.le_trans hbelow (by decide)
      have hread := number_append hrest true _ _ _ (number_toDigits true hn)
      rw [whole_true hbelow] at hread
      exact (valueWith_minus inner h).trans hread
  | double d =>
    have hread := number_append hrest d.negative _ _ _
      (number_of_readable (hd d List.mem_cons_self))
    exact (valueWith_double inner d h).trans hread
  | string t =>
    rw [write, quoted_append] at h
    simp [valueWith, h, stringRest_quoted, reread, bind, Except.bind]
  | array items => exact hscalar.elim
  | object members => exact hscalar.elim

/-! ## Arrays and objects -/

theorem put_of_not_mem {ms : Members} {key : String} (h : key ∉ ms.keys) (v : Json) :
    ms.put key v = ms ++ [(key, v)] := by
  induction ms with
  | nil => rfl
  | cons m ms ih =>
    rcases m with ⟨k, w⟩
    simp only [Members.keys, List.map_cons, List.mem_cons, not_or] at h
    rw [Members.put, if_neg (Ne.symm h.1), ih h.2, List.cons_append]

theorem rereadMembers_eq_map (ms : Members) :
    rereadMembers ms = ms.map fun m => (m.1, m.2.reread) := by
  induction ms with
  | nil => rfl
  | cons m ms ih => rw [rereadMembers, ih, List.map_cons]

section Brackets

variable {s : List Char}

/-- The reader of the values inside makes a difference only where a bracket stands. -/
theorem valueWith_congr (harray : ∀ cs, skipBlanks s ≠ '[' :: cs)
    (hobject : ∀ cs, skipBlanks s ≠ '\x7b' :: cs) (inner inner' : Option (Reader Json)) :
    valueWith inner s = valueWith inner' s := by
  unfold valueWith
  cases hs : skipBlanks s with
  | nil => rfl
  | cons c cs =>
    have hbracket : c ≠ '[' := fun h => harray cs (h ▸ hs)
    have hbrace : c ≠ '\x7b' := fun h => hobject cs (h ▸ hs)
    simp only [if_neg hbracket, if_neg hbrace]

theorem valueWith_none_bracket {bracket : Char} {cs : List Char} (h : skipBlanks s = bracket :: cs)
    (hbracket : bracket = '[' ∨ bracket = '\x7b') :
    valueWith none s = .error (.upon .tooDeep (bracket :: cs)) := by
  rcases hbracket with rfl | rfl <;> simp [valueWith, h]

theorem not_bracket_of_valueWith {p : Json × List Char} (h : valueWith none s = .ok p) :
    (∀ cs, skipBlanks s ≠ '[' :: cs) ∧ ∀ cs, skipBlanks s ≠ '\x7b' :: cs := by
  constructor
  · intro cs hs
    rw [valueWith_none_bracket hs (.inl rfl)] at h
    cases h
  · intro cs hs
    rw [valueWith_none_bracket hs (.inr rfl)] at h
    cases h

end Brackets

/-- Readers of values that may be nested for so many levels. A bracket leads to the reader with one
level less, and members with new keys are put at the end. -/
structure ReadsNested (read : Nat → Reader Json)
    (member : Nat → Members → String → Reader Members) : Prop where
  flat : ∀ budget s p, valueWith none s = .ok p → read budget s = .ok p
  zero : read 0 = valueWith none
  array : ∀ budget s cs, skipBlanks s = '[' :: cs →
    read (budget + 1) s = (arrayRest (read budget) cs >>= fun p => .ok (.array p.1, p.2))
  object : ∀ budget s cs, skipBlanks s = '\x7b' :: cs →
    read (budget + 1) s = (objectRest (member budget) [] cs >>= fun p => .ok (.object p.1, p.2))
  member : ∀ budget (before : Members) key, key ∉ before.keys → ∀ s, member budget before key s =
    (colon s >>= fun s => read budget s >>= fun p => .ok (before ++ [(key, p.1)], p.2))

namespace ReadsNested

variable {read : Nat → Reader Json} {member : Nat → Members → String → Reader Members}

theorem readsAt_scalar (h : ReadsNested read member) {j : Json} (hscalar : j.IsScalar)
    (hj : j.Regular) (hd : ∀ d ∈ j.doubles, d.Readable) (budget : Nat) :
    ReadsAt budget (read budget) j j.reread := by
  intro layout level s rest hrest hskip
  have hdepth : j.depth = 0 := by
    cases j with
    | array items => exact hscalar.elim
    | object members => exact hscalar.elim
    | _ => rfl
  have hread := valueWith_scalar none hscalar hj hd hrest hskip
  rw [hdepth]
  exact .of_ok (Nat.zero_le budget) (h.flat budget s _ hread)

theorem readsAt_array (h : ReadsNested read member) {js : List Json}
    (hitems : ∀ budget, ∀ j ∈ js, ReadsAt budget (read budget) j j.reread) (budget : Nat) :
    ReadsAt budget (read budget) (.array js) (.array (js.map reread)) := by
  intro layout level s rest _ hskip
  rw [write, List.cons_append, List.append_assoc] at hskip
  cases budget with
  | zero =>
    rw [h.zero]
    exact .of_error (Nat.not_succ_le_zero _) (valueWith_none_bracket hskip (.inl rfl))
  | succ budget =>
    have hread := arrayRest_write layout level js (hitems budget) rest
    rw [List.map_id'] at hread
    rw [h.array budget s _ hskip]
    exact Yields.congr (hread.map rfl) Nat.succ_le_succ_iff.symm

/-- The members of an object are set one after the other, each at the end. -/
theorem folds_member (h : ReadsNested read member) {budget : Nat} {ms : Members}
    (hnodup : ms.keys.Nodup) (hvalues : ∀ m ∈ ms, ReadsAt budget (read budget) m.2 m.2.reread) :
    Folds budget (member budget) [] ms (rereadMembers ms) := by
  have hmember : ∀ m ∈ ms, ∀ before : Members, m.1 ∉ before.keys →
      TakesMember budget (member budget before m.1) m.2 (before ++ [(m.1, m.2.reread)]) := by
    intro m hm before hnew
    exact takesMember_of (fun v => before ++ [(m.1, v)]) (h.member budget before m.1 hnew)
      (hvalues m hm)
  have hfolds := folds_append (fun ms => ms) (fun j => j) reread hmember [] hnodup
  rwa [List.nil_append, ← rereadMembers_eq_map, List.map_id'] at hfolds

theorem readsAt_object (h : ReadsNested read member) {ms : Members} (hnodup : ms.keys.Nodup)
    (hvalues : ∀ budget, ∀ m ∈ ms, ReadsAt budget (read budget) m.2 m.2.reread) (budget : Nat) :
    ReadsAt budget (read budget) (.object ms) (.object (rereadMembers ms)) := by
  intro layout level s rest _ hskip
  rw [write, List.cons_append, List.append_assoc] at hskip
  cases budget with
  | zero =>
    rw [h.zero]
    exact .of_error (Nat.not_succ_le_zero _) (valueWith_none_bracket hskip (.inr rfl))
  | succ budget =>
    have hread := objectRest_write layout level (h.folds_member hnodup (hvalues budget)) rest
    rw [h.object budget s _ hskip]
    exact Yields.congr (hread.map rfl) Nat.succ_le_succ_iff.symm

mutual

/-- A regular value whose doubles can be read is read back, up to its doubles. -/
theorem readsAt (h : ReadsNested read member) : (j : Json) → j.Regular →
    (∀ d ∈ j.doubles, d.Readable) → ∀ budget, ReadsAt budget (read budget) j j.reread
  | .null, hj, hd, budget => h.readsAt_scalar (j := .null) trivial hj hd budget
  | .bool b, hj, hd, budget => h.readsAt_scalar (j := .bool b) trivial hj hd budget
  | .int n, hj, hd, budget => h.readsAt_scalar (j := .int n) trivial hj hd budget
  | .double d, hj, hd, budget => h.readsAt_scalar (j := .double d) trivial hj hd budget
  | .string t, hj, hd, budget => h.readsAt_scalar (j := .string t) trivial hj hd budget
  | .array items, hj, hd, budget => by
    rw [reread, rereadItems_eq_map]
    exact h.readsAt_array (fun budget j hmem => h.readsAt_items items hj hd j hmem budget) budget
  | .object members, hj, hd, budget =>
    h.readsAt_object hj.1 (fun budget m hm => h.readsAt_members members hj.2 hd m hm budget) budget

theorem readsAt_items (h : ReadsNested read member) : (js : List Json) → RegularItems js →
    (∀ d ∈ doublesItems js, d.Readable) → ∀ j ∈ js,
    ∀ budget, ReadsAt budget (read budget) j j.reread
  | [], _, _, _, hmem => absurd hmem List.not_mem_nil
  | j :: js, hjs, hd, _, hmem => by
    simp only [doublesItems, List.mem_append] at hd
    rcases List.mem_cons.mp hmem with heq | hmem
    · rw [heq]
      exact h.readsAt j hjs.1 fun d hd' => hd d (.inl hd')
    · exact h.readsAt_items js hjs.2 (fun d hd' => hd d (.inr hd')) _ hmem

theorem readsAt_members (h : ReadsNested read member) : (ms : List (String × Json)) →
    RegularMembers ms → (∀ d ∈ doublesMembers ms, d.Readable) → ∀ m ∈ ms,
    ∀ budget, ReadsAt budget (read budget) m.2 m.2.reread
  | [], _, _, _, hmem => absurd hmem List.not_mem_nil
  | (_, j) :: ms, hms, hd, _, hmem => by
    simp only [doublesMembers, List.mem_append] at hd
    rcases List.mem_cons.mp hmem with heq | hmem
    · rw [heq]
      exact h.readsAt j hms.1 fun d hd' => hd d (.inl hd')
    · exact h.readsAt_members ms hms.2 (fun d hd' => hd d (.inr hd')) _ hmem

end

end ReadsNested

theorem readsNested_readValue :
    ReadsNested readValue fun budget => putMember (readValue budget) where
  flat budget s p h := by
    obtain ⟨harray, hobject⟩ := not_bracket_of_valueWith h
    obtain ⟨inner, hinner⟩ := readValue_eq budget
    rw [hinner, valueWith_congr harray hobject inner none, h]
  zero := rfl
  array budget s cs h := by simp [readValue, valueWith, h]
  object budget s cs h := by simp [readValue, valueWith, h]
  member budget before key hnew s := by simp only [putMember, put_of_not_mem hnew]

mutual

/-- A value whose doubles are read back is read back as it is. -/
theorem reread_eq_self : (j : Json) → (∀ d ∈ j.doubles, d.reread = d) → j.reread = j
  | .null, _ => rfl
  | .bool _, _ => rfl
  | .int _, _ => rfl
  | .double d, h => congrArg Json.double (h d List.mem_cons_self)
  | .string _, _ => rfl
  | .array items, h => congrArg Json.array (rereadItems_eq_self items h)
  | .object members, h => congrArg Json.object (rereadMembers_eq_self members h)

theorem rereadItems_eq_self : (js : List Json) → (∀ d ∈ doublesItems js, d.reread = d) →
    rereadItems js = js
  | [], _ => rfl
  | j :: js, h => by
    simp only [doublesItems, List.mem_append] at h
    rw [rereadItems, reread_eq_self j fun d hd => h d (.inl hd),
      rereadItems_eq_self js fun d hd => h d (.inr hd)]

theorem rereadMembers_eq_self : (ms : List (String × Json)) →
    (∀ d ∈ doublesMembers ms, d.reread = d) → rereadMembers ms = ms
  | [], _ => rfl
  | (_, j) :: ms, h => by
    simp only [doublesMembers, List.mem_append] at h
    rw [rereadMembers, reread_eq_self j fun d hd => h d (.inl hd),
      rereadMembers_eq_self ms fun d hd => h d (.inr hd)]

end

/-! ## Doubles in larger values -/

theorem mem_doublesItems_map {ι : Type} {d : Binary64} {is : List ι} {written : ι → Json} :
    d ∈ doublesItems (is.map written) ↔ ∃ i ∈ is, d ∈ (written i).doubles := by
  induction is with
  | nil => simp [doublesItems]
  | cons i is ih => simp [doublesItems, ih]

theorem mem_doublesMembers_map {ι : Type} {d : Binary64} {is : List ι} {key : ι → String}
    {written : ι → Json} :
    d ∈ doublesMembers (is.map fun i => (key i, written i)) ↔
      ∃ i ∈ is, d ∈ (written i).doubles := by
  induction is with
  | nil => simp [doublesMembers]
  | cons i is ih => simp [doublesMembers, ih]

/-! ## Whole texts -/

/-- A text of one value with blanks behind it is read just if the value is. -/
theorem readText_write_append {α : Type} {budget : Nat} {read : Reader α} {j : Json} {x : α}
    (h : ReadsAt budget read j x) (layout : Layout) {rest : List Char} (hrest : Stops rest)
    (hblank : skipBlanks rest = []) :
    Yields (j.depth ≤ budget) (readText read (write layout 0 j ++ rest)) x :=
  (h layout 0 _ rest hrest (skipBlanks_write layout 0 j rest)).map (by simp only [hblank])

/-- A text of one value is read just if the value is. -/
theorem readText_write {α : Type} {budget : Nat} {read : Reader α} {j : Json} {x : α}
    (h : ReadsAt budget read j x) (layout : Layout) :
    Yields (j.depth ≤ budget) (readText read (write layout 0 j)) x := by
  have happend := readText_write_append h layout stops_nil rfl
  rwa [List.append_nil] at happend

end Json

end Flowline
