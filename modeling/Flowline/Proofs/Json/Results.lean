import Flowline.Proofs.Binary64.Overflow
import Flowline.Proofs.Json.RoundTrip
import Flowline.Proofs.Lists

/-!
# What is read

Every value that is read can be held in memory, and is nested no deeper than its reader allows.
-/

namespace Flowline

namespace Json

/-- A result that has a property, if it is a value. -/
def Gives {α : Type} (p : α → Prop) (result : Except Fault (α × List Char)) : Prop :=
  ∀ x t, result = .ok (x, t) → p x

namespace Gives

variable {α β : Type} {p : α → Prop} {q : β → Prop}

theorem ok {x : α} (h : p x) (t : List Char) : Gives p (.ok (x, t)) := by
  intro y t' heq
  cases heq
  exact h

theorem error (f : Fault) : Gives p (.error f) := by
  intro x t heq
  cases heq

/-- One result after the other. -/
theorem bind {r : Except Fault (α × List Char)} {f : α × List Char → Except Fault (β × List Char)}
    (h : Gives p r) (hf : ∀ x t, p x → Gives q (f (x, t))) : Gives q (r >>= f) := by
  cases r with
  | error fault => exact error fault
  | ok r => exact hf r.1 r.2 (h r.1 r.2 rfl)

theorem mono {p' : α → Prop} {r : Except Fault (α × List Char)} (h : Gives p r)
    (hp : ∀ x, p x → p' x) : Gives p' r := fun x t hr => hp x (h x t hr)

/-- Behind a result of any kind. -/
theorem after {γ : Type} {r : Except Fault γ} {f : γ → Except Fault (β × List Char)}
    (hf : ∀ c, Gives q (f c)) : Gives q (r >>= f) := by
  cases r with
  | error fault => exact error fault
  | ok c => exact hf c

end Gives

/-! ## Numbers -/

/-- A regular value in which nothing is nested. -/
def IsFlat (j : Json) : Prop := j.Regular ∧ j.depth = 0

/-- A regular number. -/
structure IsNumber (j : Json) : Prop where
  regular : j.Regular
  kind : (∃ n, j = .int n) ∨ ∃ d, j = .double d

theorem IsNumber.isFlat {j : Json} (h : IsNumber j) : IsFlat j := by
  refine ⟨h.regular, ?_⟩
  obtain ⟨n, rfl⟩ | ⟨d, rfl⟩ := h.kind <;> rfl

section Numbers

variable {negative : Bool} {digits : Nat}

theorem decimal_gives (hdigits : digits ≤ maxWhole) (exponent : Int) (s : List Char) :
    Gives IsNumber (decimal negative digits exponent s) := by
  unfold decimal
  split
  · rename_i m hm
    exact .ok ⟨Binary64.isMagnitude_ofDecimal? hdigits hm, .inr ⟨_, rfl⟩⟩ s
  · exact .error _

theorem isNumber_whole (hdigits : digits ≤ maxWhole) : IsNumber (whole negative digits) := by
  unfold whole
  split
  · refine ⟨?_, .inl ⟨_, rfl⟩⟩
    simp only [Regular]
    omega
  · split
    · exact ⟨Binary64.isMagnitude_ofNat hdigits, .inr ⟨_, rfl⟩⟩
    · refine ⟨?_, .inl ⟨_, rfl⟩⟩
      simp only [Regular]
      omega

theorem unsignedExponent_gives (hdigits : digits ≤ maxWhole) (shift : Int) (below : Bool)
    (s : List Char) : Gives IsNumber (unsignedExponent negative digits shift below s) := by
  unfold unsignedExponent
  split
  · exact .error _
  · split
    · exact .error _
    · split
      · exact decimal_gives hdigits _ _
      · split
        · exact .error _
        · exact .ok ⟨Binary64.isMagnitude_zero, .inr ⟨_, rfl⟩⟩ _

theorem exponent_gives (hdigits : digits ≤ maxWhole) (shift : Int) (s : List Char) :
    Gives IsNumber (exponent negative digits shift s) := by
  unfold exponent
  split <;> exact unsignedExponent_gives hdigits shift _ _

theorem absorb_le {n : Nat} (hn : n ≤ maxWhole) (s : List Char) : (absorb n s).1 ≤ maxWhole := by
  induction s generalizing n with
  | nil => exact hn
  | cons c s ih =>
    unfold absorb
    split
    · split
      · exact ih ‹_›
      · exact hn
    · exact hn

theorem fraction_gives (hdigits : digits ≤ maxWhole) (shift : Int) (s : List Char) :
    Gives IsNumber (fraction negative digits shift s) := by
  have htaken := absorb_le hdigits s
  unfold fraction
  generalize absorb digits s = r at htaken ⊢
  simp only
  split
  · split
    · exact .error _
    · exact decimal_gives htaken _ _
  · split
    · exact .error _
    · split
      · exact exponent_gives htaken _ _
      · exact decimal_gives htaken _ _

theorem afterWhole_gives (hdigits : digits ≤ maxWhole) (s : List Char) :
    Gives IsNumber (afterWhole negative digits s) := by
  simp only [afterWhole]
  split
  · exact fraction_gives hdigits _ _
  · split
    · exact exponent_gives hdigits _ _
    · split
      · exact .ok (isNumber_whole hdigits) _
      · exact decimal_gives hdigits _ _
  · split
    · exact .ok (isNumber_whole hdigits) _
    · exact decimal_gives hdigits _ _

theorem number_gives (negative : Bool) (s : List Char) : Gives IsNumber (number negative s) := by
  unfold number
  split
  · exact .error _
  · split
    · exact .error _
    · split
      · split
        · exact .error _
        · exact afterWhole_gives (Nat.zero_le _) _
      · exact afterWhole_gives (Nat.zero_le _) _
    · rename_i hdigit
      exact afterWhole_gives (absorb_le (digit?_le hdigit) _) _

end Numbers

/-! ## Arrays and objects -/

section Containers

variable {α σ : Type}

theorem items_gives {p : α → Prop} {item : Reader α} (h : ∀ s, Gives p (item s)) (fuel : Nat)
    (first : Bool) (s : List Char) : Gives (fun xs => ∀ x ∈ xs, p x) (items item fuel first s) := by
  induction fuel generalizing first s with
  | zero => exact .error _
  | succ fuel ih =>
    refine .after fun next => ?_
    obtain ⟨more, s⟩ := next
    simp only
    split
    · refine .bind (h s) fun x t hx => ?_
      refine .bind (ih false t) fun xs t hxs => ?_
      exact .ok (List.forall_mem_cons.mpr ⟨hx, hxs⟩) t
    · exact .ok (fun _ hmem => absurd hmem List.not_mem_nil) s

theorem arrayRest_gives {p : α → Prop} {item : Reader α} (h : ∀ s, Gives p (item s))
    (s : List Char) : Gives (fun xs => ∀ x ∈ xs, p x) (arrayRest item s) :=
  .bind (items_gives h _ _ s) fun _ _ hxs => .after fun t => .ok hxs t

theorem foldMembers_gives {p : σ → Prop} {step : σ → String → Reader σ}
    (h : ∀ a key s, p a → Gives p (step a key s)) (fuel : Nat) (first : Bool) {a : σ} (ha : p a)
    (s : List Char) : Gives p (foldMembers step fuel first a s) := by
  induction fuel generalizing first a s with
  | zero => exact .error _
  | succ fuel ih =>
    refine .after fun next => ?_
    obtain ⟨more, s⟩ := next
    simp only
    split
    · refine .after fun key => ?_
      obtain ⟨key, t⟩ := key
      refine .bind (h a key t ha) fun b t hb => ?_
      exact ih false hb t
    · exact .ok ha s

theorem objectRest_gives {p : σ → Prop} {step : σ → String → Reader σ}
    (h : ∀ a key s, p a → Gives p (step a key s)) {a : σ} (ha : p a) (s : List Char) :
    Gives p (objectRest step a s) :=
  .bind (foldMembers_gives h _ _ ha s) fun _ _ hb => .after fun t => .ok hb t

end Containers

/-! ## Values -/

theorem regularItems_iff {js : List Json} : RegularItems js ↔ ∀ j ∈ js, j.Regular := by
  induction js with
  | nil => simp [RegularItems]
  | cons j js ih => simp [RegularItems, ih]

theorem regularMembers_iff {ms : Members} : RegularMembers ms ↔ ∀ m ∈ ms, m.2.Regular := by
  induction ms with
  | nil => simp [RegularMembers]
  | cons m ms ih => simp [RegularMembers, ih]

theorem depthItems_le_iff {js : List Json} {n : Nat} :
    depthItems js ≤ n ↔ ∀ j ∈ js, j.depth ≤ n := by
  induction js with
  | nil => simp [depthItems]
  | cons j js ih => rw [depthItems, Nat.max_le, ih, List.forall_mem_cons]

theorem depthMembers_le_iff {ms : Members} {n : Nat} :
    depthMembers ms ≤ n ↔ ∀ m ∈ ms, m.2.depth ≤ n := by
  induction ms with
  | nil => simp [depthMembers]
  | cons m ms ih => rw [depthMembers, Nat.max_le, ih, List.forall_mem_cons]

theorem depth_array_le_iff {js : List Json} {n : Nat} :
    (Json.array js).depth ≤ n + 1 ↔ ∀ j ∈ js, j.depth ≤ n := by
  rw [depth, Nat.succ_le_succ_iff, depthItems_le_iff]

theorem depth_object_le_iff {ms : Members} {n : Nat} :
    (Json.object ms).depth ≤ n + 1 ↔ ∀ m ∈ ms, m.2.depth ≤ n := by
  rw [depth, Nat.succ_le_succ_iff, depthMembers_le_iff]

/-- A regular value that is nested no deeper than so many levels. -/
def FitsIn (n : Nat) (j : Json) : Prop := j.Regular ∧ j.depth ≤ n

theorem IsFlat.fitsIn {j : Json} (h : IsFlat j) (n : Nat) : FitsIn n j :=
  ⟨h.1, h.2 ▸ Nat.zero_le n⟩

theorem FitsIn.mono {m n : Nat} {j : Json} (h : FitsIn m j) (hmn : m ≤ n) : FitsIn n j :=
  ⟨h.1, Nat.le_trans h.2 hmn⟩

theorem fitsIn_array {n : Nat} {js : List Json} :
    FitsIn (n + 1) (.array js) ↔ ∀ j ∈ js, FitsIn n j := by
  simp only [FitsIn, Regular, regularItems_iff, depth_array_le_iff]
  constructor
  · intro h j hj
    exact ⟨h.1 j hj, h.2 j hj⟩
  · intro h
    exact ⟨fun j hj => (h j hj).1, fun j hj => (h j hj).2⟩

/-- Members of a regular object whose values are nested no deeper than so many levels. -/
def FitMembers (n : Nat) (ms : Members) : Prop := ms.keys.Nodup ∧ ∀ m ∈ ms, FitsIn n m.2

theorem fitsIn_object {n : Nat} {ms : Members} :
    FitsIn (n + 1) (.object ms) ↔ FitMembers n ms := by
  simp only [FitsIn, FitMembers, Regular, regularMembers_iff, depth_object_le_iff]
  constructor
  · intro h
    exact ⟨h.1.1, fun m hm => ⟨h.1.2 m hm, h.2 m hm⟩⟩
  · intro h
    exact ⟨⟨h.1, fun m hm => (h.2 m hm).1⟩, fun m hm => (h.2 m hm).2⟩

theorem mem_put {ms : Members} {key : String} {v : Json} {m : String × Json}
    (h : m ∈ ms.put key v) : m ∈ ms ∨ m = (key, v) := by
  induction ms with
  | nil => exact .inr (List.mem_singleton.mp h)
  | cons e ms ih =>
    rcases e with ⟨k, w⟩
    unfold Members.put at h
    split at h
    · rename_i hkey
      rcases List.mem_cons.mp h with rfl | hmem
      · exact .inr (hkey ▸ rfl)
      · exact .inl (List.mem_cons_of_mem _ hmem)
    · rcases List.mem_cons.mp h with rfl | hmem
      · exact .inl List.mem_cons_self
      · exact (ih hmem).imp_left (List.mem_cons_of_mem _)

/-- A member that is set keeps the members regular. -/
theorem FitMembers.put {n : Nat} {ms : Members} (h : FitMembers n ms) (key : String) {v : Json}
    (hv : FitsIn n v) : FitMembers n (ms.put key v) := by
  refine ⟨?_, fun m hm => ?_⟩
  · rw [Members.keys_put]
    exact nodup_add h.1 key
  · rcases mem_put hm with hmem | rfl
    · exact h.2 m hmem
    · exact hv

theorem putMember_gives {n : Nat} {value : Reader Json} (h : ∀ s, Gives (FitsIn n) (value s))
    (ms : Members) (key : String) (s : List Char) (hms : FitMembers n ms) :
    Gives (FitMembers n) (putMember value ms key s) := by
  refine .after fun s => ?_
  refine .bind (h s) fun v t hv => ?_
  exact .ok (hms.put key hv) t

theorem valueWith_gives {n : Nat} {inner : Option (Reader Json)}
    (h : ∀ value, inner = some value → ∃ k, n = k + 1 ∧ ∀ s, Gives (FitsIn k) (value s))
    (s : List Char) : Gives (FitsIn n) (valueWith inner s) := by
  have hword {j : Json} (hj : IsFlat j) (letters s : List Char) :
      Gives (FitsIn n) (word letters s >>= fun s => .ok (j, s)) :=
    .after fun t => .ok (hj.fitsIn n) t
  have hnumber (negative : Bool) (s : List Char) : Gives (FitsIn n) (number negative s) :=
    (number_gives negative s).mono fun j hj => hj.isFlat.fitsIn n
  have hstring (t : String) : IsFlat (.string t) := ⟨trivial, rfl⟩
  unfold valueWith
  split
  · exact .error _
  · -- The branches stand in the order in which the first character is looked at.
    split
    · exact hword (j := .null) ⟨trivial, rfl⟩ _ _
    split
    · exact hword (j := .bool true) ⟨trivial, rfl⟩ _ _
    split
    · exact hword (j := .bool false) ⟨trivial, rfl⟩ _ _
    split
    · exact hnumber true _
    split
    · exact hnumber false _
    split
    · exact .after fun p => .ok ((hstring p.1).fitsIn n) p.2
    split
    · split
      · exact .error _
      · rename_i value
        obtain ⟨k, rfl, hvalue⟩ := h value rfl
        refine .bind (arrayRest_gives hvalue _) fun js t hjs => ?_
        exact .ok (fitsIn_array.mpr hjs) t
    split
    · split
      · exact .error _
      · rename_i value
        obtain ⟨k, rfl, hvalue⟩ := h value rfl
        have hstart : FitMembers k [] := ⟨List.nodup_nil, fun _ hm => absurd hm List.not_mem_nil⟩
        refine .bind (objectRest_gives (putMember_gives hvalue) hstart _) fun ms t hms => ?_
        exact .ok (fitsIn_object.mpr hms) t
    · exact .error _

/-- Whatever a reader reads is regular, and nested no deeper than its budget. -/
theorem readValue_gives (budget : Nat) (s : List Char) :
    Gives (FitsIn budget) (readValue budget s) := by
  induction budget generalizing s with
  | zero => exact valueWith_gives (fun value h => absurd h.symm (Option.some_ne_none value)) s
  | succ budget ih =>
    refine valueWith_gives (fun value h => ⟨budget, rfl, ?_⟩) s
    obtain rfl := Option.some.inj h
    exact ih

theorem readText_gives {α : Type} {p : α → Prop} {reader : Reader α}
    (h : ∀ s, Gives p (reader s)) {text : List Char} {x : α}
    (hread : readText reader text = .ok x) : p x := by
  unfold readText at hread
  cases hresult : reader text with
  | error f =>
    rw [hresult] at hread
    cases hread
  | ok r =>
    have hp := h text r.1 r.2 hresult
    rw [hresult] at hread
    simp only [bind, Except.bind] at hread
    split at hread
    · cases hread
      exact hp
    · cases hread

/-- A value that was read from a text. -/
theorem fitsIn_of_read {text : String} {j : Json} (h : read text = .ok j) : FitsIn maxDepth j :=
  readText_gives (readValue_gives maxDepth) h

end Json

end Flowline
