import Flowline.Json.Shape
import Flowline.Proofs.Json.Skipping
import Flowline.Proofs.Json.Spans

/-!
# What a decoder looks at

Decoders look at hardly anything behind what they take, like the readers of values, and nothing at
all if they end with a bracket. The budget of levels makes no difference to a decoder once there are
as many as its shape has. What a record gives has whatever property its fields keep.
-/

namespace Flowline

namespace Json

namespace Decoder

/-! ## Scalars -/

theorem string_frames (wanted : String) (budget : Nat) (s : List Char) :
    Frames 0 (string wanted budget) s := by
  have hblanks (t : List Char) : string wanted budget t = string wanted budget (skipBlanks t) := by
    rw [string, string, skipBlanks_skipBlanks]
  refine .afterBlanks hblanks rfl (fun c cs hc => ?_) s
  by_cases hquote : c = '"'
  · subst hquote
    refine .cons (.congr (fun u _ => ?_) (stringRest_frames cs))
    simp only [string, skipBlanks_cons hc]
  · have hother : string wanted budget (c :: cs) = .error (misplaced wanted (c :: cs)) := by
      unfold string
      rw [skipBlanks_cons hc]
      split
      · rename_i heq
        exact absurd (List.cons.inj heq).1 hquote
      · rfl
    exact .of_error hother

/-- A whole number is read just where it is read as a value. -/
theorem int_eq_ok_iff {low high n : Int} {wanted : String} {budget : Nat} {s rest : List Char} :
    int low high wanted budget s = .ok (n, rest) ↔
      valueWith none s = .ok (.int n, rest) ∧ low ≤ n ∧ n ≤ high := by
  constructor
  · intro h
    unfold int at h
    split at h
    · rename_i c cs hskip
      split at h
      · obtain ⟨⟨v, t⟩, hvalue, hmore⟩ := exists_of_bind_eq_ok h
        rw [valueWith_skipBlanks, hskip]
        cases v with
        | int m =>
          simp only at hmore
          split at hmore
          · cases hmore
            exact ⟨hvalue, ‹_›⟩
          · cases hmore
        | _ => cases hmore
      · cases h
    · cases h
  · rintro ⟨hvalue, hbounds⟩
    obtain ⟨c, cs, hskip, hnumber⟩ := valueWith_eq_int hvalue
    rw [valueWith_skipBlanks, hskip] at hvalue
    simp only [int, hskip, if_pos hnumber, hvalue]
    exact if_pos hbounds

theorem int_frames (low high : Int) (wanted : String) (budget : Nat) (s : List Char) :
    Frames 0 (int low high wanted budget) s := by
  intro n rest h
  obtain ⟨hvalue, hbounds⟩ := int_eq_ok_iff.mp h
  have hframes : Frames 0 (valueWith none) s :=
    valueWith_frames (fun value h => absurd h.symm (Option.some_ne_none value)) s
  obtain ⟨taken, htaken, hcut⟩ := hframes _ rest hvalue
  exact ⟨taken, htaken, fun u hu hlength => int_eq_ok_iff.mpr ⟨hcut u hu hlength, hbounds⟩⟩

theorem natUpTo_frames (high : Nat) (wanted : String) (budget : Nat) (s : List Char) :
    Frames 0 (natUpTo high wanted budget) s :=
  .bind (int_frames 0 high wanted budget s) fun n t => .ok n.toNat t

theorem int_gives (low high : Int) (wanted : String) (budget : Nat) (s : List Char) :
    Gives (fun n => low ≤ n ∧ n ≤ high) (int low high wanted budget s) :=
  fun _ _ h => (int_eq_ok_iff.mp h).2

theorem natUpTo_gives (high : Nat) (wanted : String) (budget : Nat) (s : List Char) :
    Gives (· ≤ high) (natUpTo high wanted budget s) :=
  .bind (int_gives 0 high wanted budget s) fun _ t hn =>
    .ok (p := (· ≤ high)) (Int.toNat_le.mpr hn.2) t

/-! ## Lists -/

/-- A decoder that looks at hardly anything behind what it takes, and cannot do without a text. -/
structure Framed {α : Type} (decode : Decoder α) : Prop where
  frames : ∀ budget s, Frames 0 (decode budget) s
  nil : ∀ budget, ∃ f, decode budget [] = .error f

/-- A decoder to which further levels make no difference. -/
def Shallow {α : Type} (levels : Nat) (decode : Decoder α) : Prop :=
  ∀ budget, levels ≤ budget → decode budget = decode levels

section Lists

variable {α : Type} {decode : Decoder α}

theorem closed_deeper {bracket : Char} {inner : Decoder α} {s : List Char}
    (h : ∀ budget, Closed (inner budget) s) (budget : Nat) :
    Closed (deeper bracket inner budget) s := by
  cases budget with
  | zero => exact .of_error rfl
  | succ budget => exact h budget

theorem shallow_deeper {levels : Nat} {bracket : Char} {inner : Decoder α}
    (h : Shallow levels inner) : Shallow (levels + 1) (deeper bracket inner) := by
  intro budget hbudget
  obtain ⟨budget, rfl⟩ := Nat.exists_eq_add_of_le' hbudget
  exact h (budget + levels) (Nat.le_add_left levels budget)

theorem list_closed (h : decode.Framed) (budget : Nat) (s : List Char) :
    Closed (list decode budget) s := by
  have hblanks (t : List Char) : list decode budget t = list decode budget (skipBlanks t) := by
    rw [list, list, skipBlanks_skipBlanks]
  refine .afterBlanks hblanks rfl (fun c cs hc => ?_) s
  by_cases hbracket : c = '['
  · subst hbracket
    have hread (t : List Char) : list decode budget ('[' :: t) =
        deeper '[' (fun b => arrayRest (decode b)) budget t := by
      simp only [list, skipBlanks_cons hc]
    refine .cons ?_
    simp only [hread]
    refine closed_deeper (fun budget => ?_) budget
    obtain ⟨f, hf⟩ := h.nil budget
    exact arrayRest_closed (h.frames budget) hf cs
  · have hother : list decode budget (c :: cs) = .error (misplaced "a sequence" (c :: cs)) := by
      unfold list
      rw [skipBlanks_cons hc]
      split
      · rename_i heq
        exact absurd (List.cons.inj heq).1 hbracket
      · rfl
    exact .of_error hother

theorem framed_list (h : decode.Framed) : (list decode).Framed :=
  ⟨fun budget s => (list_closed h budget s).frames 0, fun _ => ⟨_, rfl⟩⟩

theorem shallow_list {levels : Nat} (h : Shallow levels decode) :
    Shallow (levels + 1) (list decode) := by
  have harray : Shallow levels fun b => arrayRest (decode b) :=
    fun budget hbudget => congrArg arrayRest (h budget hbudget)
  intro budget hbudget
  funext s
  unfold list
  rw [shallow_deeper harray budget hbudget]

theorem list_gives {p : α → Prop} (h : ∀ budget s, Gives p (decode budget s)) (budget : Nat)
    (s : List Char) : Gives (fun xs => ∀ x ∈ xs, p x) (list decode budget s) := by
  unfold list
  split
  · cases budget with
    | zero => exact .error _
    | succ budget => exact arrayRest_gives (h budget) _
  · exact .error _

end Lists

/-- What is taken of a whole text by a decoder that ends with a bracket. Behind it there are only
blanks, and there may be anything else, where the text stands at fewer levels. -/
theorem exists_taken_of_run {α : Type} {decode : Decoder α}
    (hclosed : ∀ budget s, Closed (decode budget) s) {levels : Nat}
    (hlevels : decode.Shallow levels) (hdepth : levels ≤ maxDepth) {text : String} {x : α}
    (h : decode.run text = .ok x) :
    ∃ taken back, text.toList = taken ++ back ∧ (∀ c ∈ back, isBlank c = true) ∧
      ∀ budget, levels ≤ budget → ∀ u, decode budget (taken ++ u) = .ok (x, u) := by
  obtain ⟨back, hread, hback⟩ := readText_eq_ok_iff.mp h
  obtain ⟨taken, -, htext, hcut⟩ := hclosed maxDepth _ x back hread
  refine ⟨taken, back, htext, isBlank_of_skipBlanks_eq_nil hback, fun budget hbudget u => ?_⟩
  rw [hlevels budget hbudget, ← hlevels maxDepth hdepth]
  exact hcut u

end Decoder

/-! ## Records -/

section Records

variable {σ : Type} {r : Record σ}

/-- A field that looks at hardly anything behind its value. -/
def Field.Framed (f : Field σ) : Prop := ∀ budget x s, Frames 0 (f.take budget x) s

theorem Field.framed_of {α : Type} {decode : Decoder α}
    (h : ∀ budget s, Frames 0 (decode budget) s) (key : String) (presence : Presence)
    (set : σ → α → σ) : (Field.of key presence decode set).Framed :=
  fun budget x s => .bind (h budget s) fun v t => .ok (set x v) t

/-- A field to which further levels make no difference. -/
def Field.Shallow (levels : Nat) (f : Field σ) : Prop :=
  ∀ budget, levels ≤ budget → f.take budget = f.take levels

theorem Field.shallow_of {α : Type} {levels : Nat} {decode : Decoder α}
    (h : decode.Shallow levels) (key : String) (presence : Presence) (set : σ → α → σ) :
    (Field.of key presence decode set).Shallow levels := by
  intro budget hbudget
  simp only [Field.of, h budget hbudget]

/-- A field whose value has a property that is enough for the record to keep its own. -/
theorem Field.gives_of {α : Type} {decode : Decoder α} {set : σ → α → σ} {p : α → Prop}
    {q : σ → Prop} (h : ∀ budget s, Gives p (decode budget s))
    (hset : ∀ x v, q x → p v → q (set x v)) (key : String) (presence : Presence) (budget : Nat)
    (x : σ) (s : List Char) (hx : q x) :
    Gives q ((Field.of key presence decode set).take budget x s) :=
  .bind (h budget s) fun v t hv => .ok (hset x v hx hv) t

namespace Record

theorem takeMember_frames (h : ∀ f ∈ r.fields, f.Framed) (budget : Nat)
    (state : List String × σ) (key : String) (s : List Char) :
    Frames 0 (r.takeMember budget state key) s := by
  cases hfind : r.fields.find? (fun f => f.key == key) with
  | none =>
    have hread (t : List Char) : r.takeMember budget state key t =
        (colon t >>= fun t => skip t >>= fun t => .ok (state, t)) := by
      simp only [takeMember, hfind]
    exact .congr (fun u _ => hread u)
      (takesMark_colon.frames_after (fun t => (skip_passes t).frames state) s)
  | some f =>
    by_cases hseen : key ∈ state.1
    · have hduplicate : ∃ e, r.takeMember budget state key s = .error e := by
        simp only [takeMember, hfind, if_pos hseen]
        split <;> exact ⟨_, rfl⟩
      obtain ⟨e, he⟩ := hduplicate
      exact .of_error he
    · have hread (t : List Char) : r.takeMember budget state key t =
          (colon t >>= fun t => f.take budget state.2 t >>= fun p =>
            .ok ((key :: state.1, p.1), p.2)) := by
        simp only [takeMember, hfind, if_neg hseen]
      have hvalue (t : List Char) := h f (List.mem_of_find?_eq_some hfind) budget state.2 t
      exact .congr (fun u _ => hread u)
        (takesMark_colon.frames_after
          (fun t => .bind (hvalue t) fun x t => .ok (key :: state.1, x) t) s)

theorem takeItems_frames (budget : Nat) {fs : List (Field σ)} (h : ∀ f ∈ fs, f.Framed)
    (index : Nat) (first : Bool) (x : σ) (s : List Char) :
    Frames 1 (r.takeItems budget fs index first x) s := by
  induction fs generalizing index first x s with
  | nil => exact .ok x s
  | cons f fs ih =>
    obtain ⟨hf, hfs⟩ := List.forall_mem_cons.mp h
    refine .bind (nextItem_frames first s) fun more t => ?_
    refine .ite (fun _ => ?_) fun _ => .ite (fun _ => ih hfs _ _ _ t) fun _ => ?_
    · exact .bind (hf budget x t).weaken fun x t => ih hfs _ _ x t
    · -- A short array is an error, whatever stands behind it.
      intro y rest hy
      obtain ⟨u, -, herror⟩ := exists_of_bind_eq_ok hy
      cases herror

/-- A record is read from an object if none of its fields is missing. -/
theorem ofObject_eq_ok_iff {budget : Nat} {s rest : List Char} {x : σ} :
    r.ofObject budget s = .ok (x, rest) ↔
      ∃ seen, objectRest (r.takeMember budget) ([], r.blank) s = .ok ((seen, x), rest) ∧
        r.missing? seen = none := by
  constructor
  · intro h
    obtain ⟨⟨⟨seen, y⟩, t⟩, hmembers, hmore⟩ := exists_of_bind_eq_ok h
    simp only at hmore
    split at hmore
    · cases hmore
    · rename_i hmissing
      cases hmore
      exact ⟨seen, hmembers, hmissing⟩
  · rintro ⟨seen, hmembers, hmissing⟩
    simp [ofObject, hmembers, hmissing, bind, Except.bind]

theorem ofObject_closed (h : ∀ f ∈ r.fields, f.Framed) (budget : Nat) (s : List Char) :
    Closed (r.ofObject budget) s := by
  intro x rest hx
  obtain ⟨seen, hmembers, hmissing⟩ := ofObject_eq_ok_iff.mp hx
  obtain ⟨taken, hne, htaken, hcut⟩ :=
    objectRest_closed (takeMember_frames h budget) ([], r.blank) s _ rest hmembers
  exact ⟨taken, hne, htaken, fun u => ofObject_eq_ok_iff.mpr ⟨seen, hcut u, hmissing⟩⟩

/-- A record ends with its closing brace or bracket. -/
theorem decode_closed (h : ∀ f ∈ r.fields, f.Framed) (budget : Nat) (s : List Char) :
    Closed (r.decode budget) s := by
  have hblanks (t : List Char) : r.decode budget t = r.decode budget (skipBlanks t) := by
    rw [decode, decode, skipBlanks_skipBlanks]
  refine .afterBlanks hblanks rfl (fun c cs hc => ?_) s
  by_cases hbracket : c = '['
  · subst hbracket
    have hread (t : List Char) : r.decode budget ('[' :: t) =
        Decoder.deeper '[' r.ofArray budget t := by
      simp only [decode, skipBlanks_cons hc]
    refine .cons ?_
    simp only [hread]
    refine Decoder.closed_deeper (fun budget => ?_) budget
    exact takesMark_closeArray.closed_before (takeItems_frames budget h 0 true r.blank cs)
  by_cases hbrace : c = '\x7b'
  · subst hbrace
    have hread (t : List Char) : r.decode budget ('\x7b' :: t) =
        Decoder.deeper '\x7b' r.ofObject budget t := by
      simp only [decode, skipBlanks_cons hc]
    refine .cons ?_
    simp only [hread]
    refine Decoder.closed_deeper (fun budget => ?_) budget
    exact ofObject_closed h budget cs
  · have hother : r.decode budget (c :: cs) = .error (misplaced r.name (c :: cs)) := by
      unfold decode
      rw [skipBlanks_cons hc]
      split
      · rename_i heq
        exact absurd (List.cons.inj heq).1 hbracket
      · rename_i heq
        exact absurd (List.cons.inj heq).1 hbrace
      · rfl
    exact .of_error hother

theorem framed_decode (h : ∀ f ∈ r.fields, f.Framed) : r.decode.Framed :=
  ⟨fun budget s => (decode_closed h budget s).frames 0, fun _ => ⟨_, rfl⟩⟩

theorem takeMember_shallow {levels budget : Nat} (h : ∀ f ∈ r.fields, f.Shallow levels)
    (hbudget : levels ≤ budget) : r.takeMember budget = r.takeMember levels := by
  funext state key s
  unfold takeMember
  cases hfind : r.fields.find? (fun f => f.key == key) with
  | none => rfl
  | some f => simp only [h f (List.mem_of_find?_eq_some hfind) budget hbudget]

theorem takeItems_shallow {levels budget : Nat} {fs : List (Field σ)}
    (h : ∀ f ∈ fs, f.Shallow levels) (hbudget : levels ≤ budget) :
    r.takeItems budget fs = r.takeItems levels fs := by
  induction fs with
  | nil => rfl
  | cons f fs ih =>
    obtain ⟨hf, hfs⟩ := List.forall_mem_cons.mp h
    funext index first x s
    simp only [takeItems, hf budget hbudget, ih hfs]

theorem shallow_decode {levels : Nat} (h : ∀ f ∈ r.fields, f.Shallow levels) :
    r.decode.Shallow (levels + 1) := by
  have harray : Decoder.Shallow levels r.ofArray := by
    intro budget hbudget
    funext s
    rw [ofArray, ofArray, takeItems_shallow h hbudget]
  have hobject : Decoder.Shallow levels r.ofObject := by
    intro budget hbudget
    funext s
    rw [ofObject, ofObject, takeMember_shallow h hbudget]
  intro budget hbudget
  funext s
  unfold decode
  rw [Decoder.shallow_deeper harray budget hbudget, Decoder.shallow_deeper hobject budget hbudget]

section Gives

variable {p : σ → Prop} (h : ∀ f ∈ r.fields, ∀ budget x s, p x → Gives p (f.take budget x s))

include h

theorem takeMember_gives (budget : Nat) {state : List String × σ} (hstate : p state.2)
    (key : String) (s : List Char) :
    Gives (fun state : List String × σ => p state.2) (r.takeMember budget state key s) := by
  unfold takeMember
  split
  · refine .after fun t => .after fun t => ?_
    exact .ok (p := fun state : List String × σ => p state.2) hstate t
  · rename_i f hfind
    split
    · split <;> exact .error _
    · refine .after fun t => .bind (h f (List.mem_of_find?_eq_some hfind) budget _ t hstate) ?_
      intro x t hx
      exact .ok (p := fun state : List String × σ => p state.2) hx t

theorem takeItems_gives (budget : Nat) {fs : List (Field σ)} (hfs : ∀ f ∈ fs, f ∈ r.fields)
    (index : Nat) (first : Bool) {x : σ} (hx : p x) (s : List Char) :
    Gives p (r.takeItems budget fs index first x s) := by
  induction fs generalizing index first x s with
  | nil => exact .ok hx s
  | cons f fs ih =>
    obtain ⟨hf, hfs⟩ := List.forall_mem_cons.mp hfs
    refine .after fun next => ?_
    obtain ⟨more, t⟩ := next
    simp only
    split
    · exact .bind (h f hf budget x t hx) fun y u hy => ih hfs _ _ hy u
    · split
      · exact ih hfs _ _ hx t
      · exact .after fun u => .error _

/-- What a record gives has whatever property its blank has and its fields keep. -/
theorem decode_gives (hblank : p r.blank) (budget : Nat) (s : List Char) :
    Gives p (r.decode budget s) := by
  unfold decode
  split
  · cases budget with
    | zero => exact .error _
    | succ budget =>
      refine .bind (takeItems_gives h budget (fun _ hf => hf) 0 true hblank _) fun x t hx => ?_
      exact .after fun u => .ok hx u
  · cases budget with
    | zero => exact .error _
    | succ budget =>
      intro x t hx
      obtain ⟨seen, hmembers, -⟩ := ofObject_eq_ok_iff.mp hx
      have hgives (cs : List Char) : Gives (fun state : List String × σ => p state.2)
          (objectRest (r.takeMember budget) ([], r.blank) cs) :=
        objectRest_gives (fun _ key s hstate => takeMember_gives h budget hstate key s) hblank cs
      exact hgives _ _ t hmembers
  · exact .error _

end Gives

end Record

end Records

end Json

end Flowline
