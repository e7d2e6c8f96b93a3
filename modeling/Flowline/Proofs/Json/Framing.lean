import Flowline.Proofs.Json.Containers

/-!
# What a reader looks at

A reader takes a part off the front of a text and looks at hardly anything behind it: whatever comes
behind that part, if it begins with the same character or is nothing at all, the text reads the
same. `Frames` says so of a reader, and is proved for compound readers from their parts; what ends
with a bracket is `Closed`, so that nothing behind it is looked at. Marks, numbers and strings stand
here, and the readers of values in `Flowline.Proofs.Json.Spans`.
-/

namespace Flowline

namespace Json

/-! ## Texts that begin alike -/

/-- A text that begins with the same character as another, or is empty. -/
def BeginsLike (u s : List Char) : Prop := u = [] ∨ u.head? = s.head?

namespace BeginsLike

theorem nil (s : List Char) : BeginsLike [] s := .inl rfl

theorem refl (s : List Char) : BeginsLike s s := .inr rfl

theorem cons (c : Char) (u s : List Char) : BeginsLike (c :: u) (c :: s) := .inr rfl

theorem of_ne_nil {front : List Char} (h : front ≠ []) (u s : List Char) :
    BeginsLike (front ++ u) (front ++ s) := by
  cases front with
  | nil => exact absurd rfl h
  | cons c cs => exact cons c _ _

theorem append {u s : List Char} (h : BeginsLike u s) (front : List Char) :
    BeginsLike (front ++ u) (front ++ s) := by
  cases front with
  | nil => exact h
  | cons c cs => exact cons c _ _

theorem eq_nil {u : List Char} (h : BeginsLike u []) : u = [] := by
  rcases h with h | h
  · exact h
  · exact List.head?_eq_none_iff.mp h

theorem eq_cons {u s : List Char} {c : Char} (h : BeginsLike u (c :: s)) :
    u = [] ∨ ∃ t, u = c :: t := by
  cases u with
  | nil => exact .inl rfl
  | cons d t =>
    rcases h with h | h
    · cases h
    · obtain rfl : d = c := Option.some.inj h
      exact .inr ⟨t, rfl⟩

end BeginsLike

/-- What begins like a text with a character in front is empty or begins with that character. -/
theorem forall_beginsLike_cons {p : List Char → Prop} {c : Char} {cs : List Char} (hnil : p [])
    (hcons : ∀ t, p (c :: t)) : ∀ u, BeginsLike u (c :: cs) → p u := by
  intro u hu
  rcases hu.eq_cons with rfl | ⟨t, rfl⟩
  · exact hnil
  · exact hcons t

/-! ## Framed readers -/

/-- A reader that takes a part off the front of a text, and takes the same part off it when anything
stands behind that part which begins with the same character, or when nothing does. At least so many
characters must stand there. -/
def Frames {α : Type} (ahead : Nat) (read : Reader α) (s : List Char) : Prop :=
  ∀ x rest, read s = .ok (x, rest) → ∃ taken, s = taken ++ rest ∧
    ∀ u, BeginsLike u rest → ahead ≤ u.length → read (taken ++ u) = .ok (x, u)

theorem exists_of_bind_eq_ok {α β : Type} {r : Except Fault α} {f : α → Except Fault β} {y : β}
    (h : (r >>= f) = .ok y) : ∃ x, r = .ok x ∧ f x = .ok y := by
  cases r with
  | error f => cases h
  | ok x => exact ⟨x, rfl, h⟩

namespace Frames

variable {α β : Type} {ahead : Nat} {s : List Char}

theorem of_error {read : Reader α} {f : Fault} (h : read s = .error f) : Frames ahead read s := by
  intro x rest hread
  rw [h] at hread
  cases hread

theorem ok (x : α) (s : List Char) : Frames ahead (fun t => .ok (x, t)) s := by
  intro y rest hread
  cases hread
  exact ⟨[], rfl, fun u _ _ => rfl⟩

theorem weaken {read : Reader α} (h : Frames 0 read s) : Frames ahead read s := by
  intro x rest hread
  obtain ⟨taken, htaken, hcut⟩ := h x rest hread
  exact ⟨taken, htaken, fun u hu _ => hcut u hu (Nat.zero_le _)⟩

theorem ite {p : Prop} [Decidable p] {f g : Reader α} (hf : p → Frames ahead f s)
    (hg : ¬p → Frames ahead g s) : Frames ahead (fun t => if p then f t else g t) s := by
  by_cases h : p
  · simp only [h, if_true]
    exact hf h
  · simp only [h, if_false]
    exact hg h

theorem length_le {read : Reader α} (h : Frames ahead read s) {x : α} {rest : List Char}
    (hread : read s = .ok (x, rest)) : rest.length ≤ s.length := by
  obtain ⟨taken, rfl, -⟩ := h x rest hread
  rw [List.length_append]
  exact Nat.le_add_left _ _

/-- A reader that takes nothing off the empty text takes at least one character off any other. -/
theorem length_lt {read : Reader α} (h : Frames 0 read s) {f : Fault} (hnil : read [] = .error f)
    {x : α} {rest : List Char} (hread : read s = .ok (x, rest)) : rest.length < s.length := by
  obtain ⟨taken, rfl, hcut⟩ := h x rest hread
  have hne : taken ≠ [] := by
    rintro rfl
    have hempty := hcut [] (.nil _) (Nat.zero_le _)
    rw [List.append_nil, hnil] at hempty
    cases hempty
  rw [List.length_append]
  exact Nat.lt_add_of_pos_left (List.length_pos_iff.mpr hne)

/-- One reader after the other. -/
theorem bind {read : Reader α} {f : α × List Char → Except Fault (β × List Char)}
    (h : Frames ahead read s) (hf : ∀ x t, Frames ahead (fun u => f (x, u)) t) :
    Frames ahead (fun t => read t >>= f) s := by
  intro y rest hread
  obtain ⟨⟨x, t⟩, hx, hy⟩ := exists_of_bind_eq_ok hread
  obtain ⟨taken, rfl, hcut⟩ := h x t hx
  obtain ⟨taken', rfl, hcut'⟩ := hf x t y rest hy
  refine ⟨taken ++ taken', (List.append_assoc ..).symm, fun u hu hlength => ?_⟩
  have hu' : BeginsLike (taken' ++ u) (taken' ++ rest) := hu.append taken'
  have hlength' : ahead ≤ (taken' ++ u).length :=
    Nat.le_trans hlength (List.length_append ▸ Nat.le_add_left _ _)
  rw [List.append_assoc]
  show read (taken ++ (taken' ++ u)) >>= f = .ok (y, u)
  rw [hcut _ hu' hlength']
  exact hcut' u hu hlength

/-- A reader that passes over the front of a text, in front of the rest and of any part that the
rest begins with. -/
theorem of_front {read behind : Reader α} {front t : List Char} (hs : s = front ++ t)
    (hread : ∀ u, BeginsLike u t → read (front ++ u) = behind u) (h : Frames ahead behind t) :
    Frames ahead read s := by
  subst hs
  intro x rest hx
  rw [hread t (.refl t)] at hx
  obtain ⟨taken, rfl, hcut⟩ := h x rest hx
  refine ⟨front ++ taken, (List.append_assoc ..).symm, fun u hu hlength => ?_⟩
  rw [List.append_assoc, hread _ (hu.append taken)]
  exact hcut u hu hlength

theorem congr {read read' : Reader α} (hread : ∀ u, BeginsLike u s → read u = read' u)
    (h : Frames ahead read' s) : Frames ahead read s :=
  of_front (List.nil_append s).symm hread h

/-- A first character that is only looked at. -/
theorem peek {read : Reader α} {c : Char} (x : α) (h : ∀ t, read (c :: t) = .ok (x, c :: t))
    (cs : List Char) : Frames 1 read (c :: cs) := by
  intro y rest hread
  rw [h] at hread
  cases hread
  exact ⟨[], rfl, forall_beginsLike_cons (fun hlength => absurd hlength (by decide)) fun t _ => h t⟩

/-- A first character that is taken. -/
theorem cons {read : Reader α} {c : Char} {cs : List Char}
    (h : Frames ahead (fun t => read (c :: t)) cs) : Frames ahead read (c :: cs) :=
  of_front List.singleton_append.symm (fun _ _ => rfl) h

end Frames

/-! ## Closed readers -/

/-- A reader that takes a part off the front of a text and looks at nothing behind that part. -/
def Closed {α : Type} (read : Reader α) (s : List Char) : Prop :=
  ∀ x rest, read s = .ok (x, rest) → ∃ taken, taken ≠ [] ∧ s = taken ++ rest ∧
    ∀ u, read (taken ++ u) = .ok (x, u)

namespace Closed

variable {α β : Type} {s : List Char}

theorem frames {read : Reader α} (h : Closed read s) (ahead : Nat) : Frames ahead read s := by
  intro x rest hread
  obtain ⟨taken, -, htaken, hcut⟩ := h x rest hread
  exact ⟨taken, htaken, fun u _ _ => hcut u⟩

theorem of_error {read : Reader α} {f : Fault} (h : read s = .error f) : Closed read s := by
  intro x rest hread
  rw [h] at hread
  cases hread

theorem of_front {read behind : Reader α} {front t : List Char} (hs : s = front ++ t)
    (hread : ∀ u, BeginsLike u t → read (front ++ u) = behind u) (h : Closed behind t) :
    Closed read s := by
  subst hs
  intro x rest hx
  rw [hread t (.refl t)] at hx
  obtain ⟨taken, hne, rfl, hcut⟩ := h x rest hx
  refine ⟨front ++ taken, List.append_ne_nil_of_right_ne_nil front hne,
    (List.append_assoc ..).symm, fun u => ?_⟩
  rw [List.append_assoc, hread _ (.of_ne_nil hne u rest)]
  exact hcut u

theorem congr {read read' : Reader α} (hread : ∀ u, BeginsLike u s → read u = read' u)
    (h : Closed read' s) : Closed read s :=
  of_front (List.nil_append s).symm hread h

theorem cons {read : Reader α} {c : Char} {cs : List Char}
    (h : Closed (fun t => read (c :: t)) cs) : Closed read (c :: cs) :=
  of_front List.singleton_append.symm (fun _ _ => rfl) h

/-- A first character that is taken, and nothing else. -/
theorem take {read : Reader α} {c : Char} {x : α} (h : ∀ t, read (c :: t) = .ok (x, t))
    (cs : List Char) : Closed read (c :: cs) := by
  intro y rest hread
  rw [h] at hread
  cases hread
  exact ⟨[c], List.cons_ne_nil c [], rfl, h⟩

theorem ite {p : Prop} [Decidable p] {f g : Reader α} (hf : p → Closed f s)
    (hg : ¬p → Closed g s) : Closed (fun t => if p then f t else g t) s := by
  by_cases h : p
  · simp only [h, if_true]
    exact hf h
  · simp only [h, if_false]
    exact hg h

/-- A closed reader behind another one, which may look at what it takes. -/
theorem after {read : Reader α} {f : α × List Char → Except Fault (β × List Char)}
    (h : Frames 0 read s) (hf : ∀ x t, Closed (fun u => f (x, u)) t) :
    Closed (fun t => read t >>= f) s := by
  intro y rest hread
  obtain ⟨⟨x, t⟩, hx, hy⟩ := exists_of_bind_eq_ok hread
  obtain ⟨taken, rfl, hcut⟩ := h x t hx
  obtain ⟨taken', hne, rfl, hcut'⟩ := hf x t y rest hy
  refine ⟨taken ++ taken', List.append_ne_nil_of_right_ne_nil taken hne,
    (List.append_assoc ..).symm, fun u => ?_⟩
  rw [List.append_assoc]
  show read (taken ++ (taken' ++ u)) >>= f = .ok (y, u)
  rw [hcut _ (.of_ne_nil hne u rest) (Nat.zero_le _)]
  exact hcut' u

/-- What is read, if it is kept, without another look at the text. -/
theorem bind_check {read : Reader α} {f : α → List Char → Except Fault (β × List Char)}
    (h : Closed read s) (hf : ∀ x, (∃ y, ∀ t, f x t = .ok (y, t)) ∨ ∀ t, ∃ e, f x t = .error e) :
    Closed (fun t => read t >>= fun p => f p.1 p.2) s := by
  intro y rest hy
  obtain ⟨⟨x, t⟩, hx, hmore⟩ := exists_of_bind_eq_ok hy
  obtain ⟨taken, hne, rfl, hcut⟩ := h x t hx
  rcases hf x with ⟨y', hkept⟩ | hrefused
  · rw [hkept] at hmore
    cases hmore
    refine ⟨taken, hne, rfl, fun u => ?_⟩
    show (read (taken ++ u) >>= _) = .ok (y, u)
    rw [hcut u]
    exact hkept u
  · obtain ⟨e, he⟩ := hrefused t
    rw [he] at hmore
    cases hmore

end Closed

/-! ## Blanks -/

theorem dropWhile_cut (p : Char → Bool) (s : List Char) :
    ∃ front, s = front ++ s.dropWhile p ∧
      ∀ u, BeginsLike u (s.dropWhile p) → (front ++ u).dropWhile p = u := by
  induction s with
  | nil => exact ⟨[], rfl, fun u hu => by rw [hu.eq_nil]; rfl⟩
  | cons c cs ih =>
    cases hc : p c with
    | true =>
      obtain ⟨front, hfront, hcut⟩ := ih
      rw [List.dropWhile_cons_of_pos hc]
      refine ⟨c :: front, congrArg (c :: ·) hfront, fun u hu => ?_⟩
      rw [List.cons_append, List.dropWhile_cons_of_pos hc, hcut u hu]
    | false =>
      have hstop : ¬p c = true := Bool.eq_false_iff.mp hc
      rw [List.dropWhile_cons_of_neg hstop]
      exact ⟨[], rfl, forall_beginsLike_cons rfl fun t => List.dropWhile_cons_of_neg hstop⟩

theorem isBlank_of_skipBlanks {s cs : List Char} {c : Char} (h : skipBlanks s = c :: cs) :
    isBlank c = false := by
  have hhead := List.head?_dropWhile_not isBlank s
  rw [skipBlanks] at h
  rw [h] at hhead
  exact hhead

theorem skipBlanks_skipBlanks (s : List Char) : skipBlanks (skipBlanks s) = skipBlanks s := by
  cases h : skipBlanks s with
  | nil => rfl
  | cons c cs => exact skipBlanks_cons (isBlank_of_skipBlanks h) cs

/-- A reader that passes over blanks in front of a character. -/
theorem Frames.afterBlanks {α : Type} {ahead : Nat} {read : Reader α} {f : Fault}
    (hskip : ∀ s, read s = read (skipBlanks s)) (hnil : read [] = .error f)
    (h : ∀ c cs, isBlank c = false → Frames ahead read (c :: cs)) (s : List Char) :
    Frames ahead read s := by
  obtain ⟨front, hfront, hcut⟩ := dropWhile_cut isBlank s
  refine .of_front hfront (fun u hu => ?_) (?_ : Frames ahead read (skipBlanks s))
  · rw [hskip, skipBlanks, hcut u hu]
  · cases hs : skipBlanks s with
    | nil => exact .of_error hnil
    | cons c cs => exact h c cs (isBlank_of_skipBlanks hs)

theorem Closed.afterBlanks {α : Type} {read : Reader α} {f : Fault}
    (hskip : ∀ s, read s = read (skipBlanks s)) (hnil : read [] = .error f)
    (h : ∀ c cs, isBlank c = false → Closed read (c :: cs)) (s : List Char) : Closed read s := by
  obtain ⟨front, hfront, hcut⟩ := dropWhile_cut isBlank s
  refine .of_front hfront (fun u hu => ?_) (?_ : Closed read (skipBlanks s))
  · rw [hskip, skipBlanks, hcut u hu]
  · cases hs : skipBlanks s with
    | nil => exact .of_error hnil
    | cons c cs => exact h c cs (isBlank_of_skipBlanks hs)

/-- Blanks stand in front of what is behind them. -/
theorem exists_blanks (s : List Char) :
    ∃ front, s = front ++ skipBlanks s ∧ ∀ c ∈ front, isBlank c = true :=
  ⟨s.takeWhile isBlank, List.takeWhile_append_dropWhile.symm,
    List.all_eq_true.mp List.all_takeWhile⟩

theorem isBlank_of_skipBlanks_eq_nil {s : List Char} (h : skipBlanks s = []) :
    ∀ c ∈ s, isBlank c = true := by
  obtain ⟨front, hfront, hblank⟩ := exists_blanks s
  rw [h, List.append_nil] at hfront
  rwa [hfront]

/-! ## Marks -/

/-- What takes a mark takes the blanks in front of it, and nothing else. -/
def TakesMark (mark : Char) (take : List Char → Except Fault (List Char)) : Prop :=
  ∀ s rest, take s = .ok rest ↔ skipBlanks s = mark :: rest

theorem takesMark_colon : TakesMark ':' colon := by
  intro s rest
  unfold colon
  cases skipBlanks s with
  | nil => simp
  | cons c cs => by_cases h : c = ':' <;> simp [h]

theorem takesMark_closeObject : TakesMark '\x7d' closeObject := by
  intro s rest
  unfold closeObject
  cases skipBlanks s with
  | nil => simp
  | cons c cs =>
    by_cases h : c = '\x7d'
    · simp [h]
    · by_cases hcomma : c = ',' <;> simp [h, hcomma]

theorem takesMark_closeArray : TakesMark ']' closeArray := by
  intro s rest
  unfold closeArray
  cases skipBlanks s with
  | nil => simp
  | cons c cs =>
    by_cases h : c = ']'
    · simp [h]
    · by_cases hcomma : c = ','
      · subst hcomma
        simp only [h, if_false, if_true]
        split <;> simp
      · simp [h, hcomma]

namespace TakesMark

variable {α : Type} {mark : Char} {take : List Char → Except Fault (List Char)} {s : List Char}

theorem cut (h : TakesMark mark take) {rest : List Char} (ht : take s = .ok rest) :
    ∃ front, s = front ++ [mark] ++ rest ∧
      ∀ u, take (front ++ [mark] ++ u) = .ok u := by
  obtain ⟨front, hfront, hcut⟩ := dropWhile_cut isBlank s
  have hrest : s.dropWhile isBlank = mark :: rest := (h s rest).mp ht
  rw [hrest] at hfront hcut
  refine ⟨front, hfront.trans (List.append_cons ..), fun u => ?_⟩
  rw [h, skipBlanks, ← List.append_cons, hcut _ (.cons mark u rest)]

/-- Behind a mark a reader goes on as if the text began there. -/
theorem cases_after (h : TakesMark mark take) (read : Reader α) (s : List Char) :
    (∃ f, (take s >>= read) = .error f) ∨
      ∃ front t, s = front ++ t ∧ ∀ u, (take (front ++ u) >>= read) = read u := by
  cases ht : take s with
  | error f => exact .inl ⟨f, rfl⟩
  | ok t =>
    obtain ⟨front, hfront, hcut⟩ := h.cut ht
    refine .inr ⟨front ++ [mark], t, hfront, fun u => ?_⟩
    rw [hcut u]
    rfl

theorem frames_after (h : TakesMark mark take) {ahead : Nat} {read : Reader α}
    (hread : ∀ t, Frames ahead read t) (s : List Char) :
    Frames ahead (fun t => take t >>= read) s := by
  obtain ⟨f, hf⟩ | ⟨front, t, hfront, hbehind⟩ := h.cases_after read s
  · exact .of_error hf
  · exact .of_front hfront (fun u _ => hbehind u) (hread t)

theorem closed_after (h : TakesMark mark take) {read : Reader α} (hread : ∀ t, Closed read t)
    (s : List Char) : Closed (fun t => take t >>= read) s := by
  obtain ⟨f, hf⟩ | ⟨front, t, hfront, hbehind⟩ := h.cases_after read s
  · exact .of_error hf
  · exact .of_front hfront (fun u _ => hbehind u) (hread t)

/-- A reader in front of a mark, which it may look at. -/
theorem closed_before (h : TakesMark mark take) {read : Reader α} (hread : Frames 1 read s) :
    Closed (fun t => read t >>= fun p => take p.2 >>= fun u => .ok (p.1, u)) s := by
  intro x rest hx
  obtain ⟨⟨x', t⟩, ht, hmore⟩ := exists_of_bind_eq_ok hx
  obtain ⟨t', ht', hgiven⟩ := exists_of_bind_eq_ok hmore
  cases hgiven
  obtain ⟨taken, rfl, hcut⟩ := hread x' t ht
  obtain ⟨front, rfl, hmark⟩ := h.cut ht'
  refine ⟨taken ++ (front ++ [mark]), by simp, (List.append_assoc ..).symm, fun u => ?_⟩
  have hne : front ++ [mark] ≠ [] := by simp
  have hlength : 1 ≤ (front ++ [mark] ++ u).length := by
    rw [List.length_append, List.length_append, List.length_singleton]
    omega
  rw [List.append_assoc taken]
  show read (taken ++ (front ++ [mark] ++ u)) >>= _ = .ok (x', u)
  rw [hcut _ (.of_ne_nil hne u rest) hlength]
  show take (front ++ [mark] ++ u) >>= _ = .ok (x', u)
  rw [hmark u]
  rfl

end TakesMark

/-! ## Numbers -/

section Numbers

variable {negative : Bool} {digits : Nat}

theorem absorb_cut (n : Nat) (s : List Char) :
    ∃ front, s = front ++ (absorb n s).2.2 ∧
      ∀ u, BeginsLike u (absorb n s).2.2 →
        absorb n (front ++ u) = ((absorb n s).1, (absorb n s).2.1, u) := by
  induction s generalizing n with
  | nil => exact ⟨[], rfl, fun u hu => by rw [hu.eq_nil]; rfl⟩
  | cons c cs ih =>
    -- A character that is not taken is looked at, if it is still there.
    have hstop (h : ∀ t, absorb n (c :: t) = (n, 0, c :: t)) :
        ∃ front, c :: cs = front ++ (absorb n (c :: cs)).2.2 ∧
          ∀ u, BeginsLike u (absorb n (c :: cs)).2.2 →
            absorb n (front ++ u) = ((absorb n (c :: cs)).1, (absorb n (c :: cs)).2.1, u) := by
      simp only [h]
      exact ⟨[], rfl, forall_beginsLike_cons rfl h⟩
    cases hc : digit? c with
    | none => exact hstop fun t => by simp only [absorb, hc]
    | some d =>
      by_cases hfits : n * 10 + d ≤ maxWhole
      · obtain ⟨front, hfront, hcut⟩ := ih (n * 10 + d)
        have htake (t : List Char) : absorb n (c :: t) = ((absorb (n * 10 + d) t).1,
            (absorb (n * 10 + d) t).2.1 + 1, (absorb (n * 10 + d) t).2.2) := by
          simp only [absorb, hc, if_pos hfits]
        rw [htake]
        refine ⟨c :: front, congrArg (c :: ·) hfront, fun u hu => ?_⟩
        rw [List.cons_append, htake, hcut u hu]
      · exact hstop fun t => by simp only [absorb, hc, if_neg hfits]

theorem exponentDigits_cut (n : Nat) (s : List Char) :
    ∃ front, s = front ++ (exponentDigits n s).2 ∧
      ∀ u, BeginsLike u (exponentDigits n s).2 →
        exponentDigits n (front ++ u) = ((exponentDigits n s).1, u) := by
  induction s generalizing n with
  | nil => exact ⟨[], rfl, fun u hu => by rw [hu.eq_nil]; rfl⟩
  | cons c cs ih =>
    cases hc : digit? c with
    | none =>
      have hstop (t : List Char) : exponentDigits n (c :: t) = (some n, c :: t) := by
        simp only [exponentDigits, hc]
      rw [hstop]
      exact ⟨[], rfl, forall_beginsLike_cons rfl hstop⟩
    | some d =>
      by_cases hfits : n * 10 + d ≤ maxExponent
      · have htake (t : List Char) :
            exponentDigits n (c :: t) = exponentDigits (n * 10 + d) t := by
          simp only [exponentDigits, hc, if_pos hfits]
        obtain ⟨front, hfront, hcut⟩ := ih (n * 10 + d)
        rw [htake]
        refine ⟨c :: front, congrArg (c :: ·) hfront, fun u hu => ?_⟩
        rw [List.cons_append, htake, hcut u hu]
      · have htake (t : List Char) : exponentDigits n (c :: t) = (none, t) := by
          simp only [exponentDigits, hc, if_neg hfits]
        rw [htake]
        exact ⟨[c], rfl, fun u _ => htake u⟩

/-- A reader of a number that has ended takes nothing, whatever the rest of the text is. -/
def Ends (read : Reader Json) : Prop :=
  (∃ v, ∀ t, read t = .ok (v, t)) ∨ ∀ t, ∃ f, read t = .error f

theorem Ends.frames {read : Reader Json} (h : Ends read) (s : List Char) : Frames 0 read s := by
  rcases h with ⟨v, hv⟩ | herror
  · exact .congr (fun u _ => hv u) (.ok v s)
  · obtain ⟨f, hf⟩ := herror s
    exact .of_error hf

theorem ends_decimal (exponent : Int) : Ends (decimal negative digits exponent) := by
  unfold decimal
  cases Binary64.ofDecimal? digits exponent with
  | none => exact .inr fun t => ⟨_, rfl⟩
  | some m => exact .inl ⟨_, fun t => rfl⟩

theorem unsignedExponent_frames_cons (shift : Int) (below : Bool) (c : Char) (cs : List Char) :
    Frames 0 (fun t => unsignedExponent negative digits shift below (c :: t)) cs := by
  cases hc : digit? c with
  | none =>
    have hinvalid : unsignedExponent negative digits shift below (c :: cs) =
        .error (.upon .invalidNumber (c :: cs)) := by
      simp only [unsignedExponent, hc]
    exact .of_error hinvalid
  | some d =>
    obtain ⟨front, hfront, hcut⟩ := exponentDigits_cut d cs
    cases he : (exponentDigits d cs).1 with
    | some e =>
      have hread (u : List Char) (hu : BeginsLike u (exponentDigits d cs).2) :
          unsignedExponent negative digits shift below (c :: (front ++ u)) =
            decimal negative digits (if below then shift - e else shift + e) u := by
        simp only [unsignedExponent, hc, hcut u hu, he]
      exact .of_front hfront hread ((ends_decimal _).frames _)
    | none =>
      have hread (u : List Char) (hu : BeginsLike u (exponentDigits d cs).2) :
          unsignedExponent negative digits shift below (c :: (front ++ u)) =
            if digits ≠ 0 ∧ !below then .error (.before .numberOutOfRange u)
            else .ok (.double ⟨negative, 0⟩, u.dropWhile isDigit) := by
        simp only [unsignedExponent, hc, hcut u hu, he]
      refine .of_front hfront hread (.ite (fun _ => .of_error rfl) fun _ => ?_)
      obtain ⟨more, hmore, hcut'⟩ := dropWhile_cut isDigit (exponentDigits d cs).2
      have hread' (u : List Char) (hu : BeginsLike u ((exponentDigits d cs).2.dropWhile isDigit)) :
          Except.ok (Json.double ⟨negative, 0⟩, (more ++ u).dropWhile isDigit) =
            (.ok (.double ⟨negative, 0⟩, u) : Except Fault (Json × List Char)) := by
        rw [hcut' u hu]
      exact .of_front hmore hread' (.ok _ _)

theorem unsignedExponent_frames (shift : Int) (below : Bool) (s : List Char) :
    Frames 0 (unsignedExponent negative digits shift below) s := by
  cases s with
  | nil => exact .of_error rfl
  | cons c cs => exact .cons (unsignedExponent_frames_cons shift below c cs)

theorem exponent_frames (shift : Int) (s : List Char) :
    Frames 0 (exponent negative digits shift) s := by
  cases s with
  | nil => exact .of_error rfl
  | cons c cs =>
    refine .cons ?_
    by_cases hplus : c = '+'
    · subst hplus
      exact unsignedExponent_frames shift false cs
    by_cases hminus : c = '-'
    · subst hminus
      exact unsignedExponent_frames shift true cs
    · have hunsigned (t : List Char) : exponent negative digits shift (c :: t) =
          unsignedExponent negative digits shift false (c :: t) := by
        unfold exponent
        split <;> simp_all
      simpa only [hunsigned] using unsignedExponent_frames_cons shift false c cs

/-- What follows the digits of a number: an exponent, or else the number has ended. -/
def endOrExponent (ended exponent : Reader Json) : Reader Json
  | [] => ended []
  | c :: cs => if isExponentMark c then exponent cs else ended (c :: cs)

theorem endOrExponent_frames {ended exponent : Reader Json} (hended : Ends ended)
    (hexponent : ∀ s, Frames 0 exponent s) (s : List Char) :
    Frames 0 (endOrExponent ended exponent) s := by
  cases s with
  | nil =>
    have hread (u : List Char) (hu : BeginsLike u []) :
        endOrExponent ended exponent u = ended u := by
      rw [hu.eq_nil, endOrExponent]
    exact .congr hread (hended.frames [])
  | cons c cs =>
    cases hmark : isExponentMark c with
    | true =>
      refine .cons ?_
      simpa only [endOrExponent, hmark, if_true] using hexponent cs
    | false =>
      have hnone : endOrExponent ended exponent [] = ended [] := rfl
      have hsome (t : List Char) : endOrExponent ended exponent (c :: t) = ended (c :: t) := by
        simp only [endOrExponent, hmark, Bool.false_eq_true, if_false]
      exact .congr (forall_beginsLike_cons hnone hsome) (hended.frames _)

theorem fraction_of_eq {s u : List Char} (hu : (absorb digits s).2.2.dropWhile isDigit = u)
    (shift : Int) :
    (s = u → ∃ f, fraction negative digits shift s = .error f) ∧
      (s ≠ u → fraction negative digits shift s =
        endOrExponent (decimal negative (absorb digits s).1 (shift - (absorb digits s).2.1))
          (exponent negative (absorb digits s).1 (shift - (absorb digits s).2.1)) u) := by
  subst hu
  unfold fraction
  generalize absorb digits s = r
  obtain ⟨m, taken, rest⟩ := r
  simp only
  cases rest.dropWhile isDigit with
  | nil => exact ⟨fun h => ⟨_, if_pos h⟩, fun h => if_neg h⟩
  | cons c cs => exact ⟨fun h => ⟨_, if_pos h⟩, fun h => if_neg h⟩

theorem fraction_frames (shift : Int) (s : List Char) :
    Frames 0 (fraction negative digits shift) s := by
  obtain ⟨front, hfront, hcut⟩ := absorb_cut digits s
  obtain ⟨more, hmore, hcut'⟩ := dropWhile_cut isDigit (absorb digits s).2.2
  generalize hbehind : (absorb digits s).2.2.dropWhile isDigit = behind at hmore hcut'
  by_cases hdigits : s = behind
  · obtain ⟨f, hf⟩ := (fraction_of_eq hbehind shift).1 hdigits
    exact .of_error hf
  · have htext : s = (front ++ more) ++ behind := by
      rw [List.append_assoc, ← hmore]
      exact hfront
    have hread (u : List Char) (hu : BeginsLike u behind) :
        fraction negative digits shift ((front ++ more) ++ u) =
          endOrExponent (decimal negative (absorb digits s).1 (shift - (absorb digits s).2.1))
            (exponent negative (absorb digits s).1 (shift - (absorb digits s).2.1)) u := by
      have hmoreu : BeginsLike (more ++ u) (absorb digits s).2.2 := by
        rw [hmore]
        exact hu.append more
      have habsorb : absorb digits ((front ++ more) ++ u) =
          ((absorb digits s).1, (absorb digits s).2.1, more ++ u) := by
        rw [List.append_assoc, hcut _ hmoreu]
      have hnot : (front ++ more) ++ u ≠ u := by
        intro h
        rw [List.append_left_eq_self.mp h] at htext
        exact hdigits htext
      have hdrop : (absorb digits ((front ++ more) ++ u)).2.2.dropWhile isDigit = u := by
        rw [habsorb, hcut' u hu]
      rw [(fraction_of_eq hdrop shift).2 hnot, habsorb]
    exact .of_front htext hread (endOrExponent_frames (ends_decimal _) (exponent_frames _) _)

/-- The end of a number without a point, behind so many digits that did not fit. -/
def endWhole (negative : Bool) (digits dropped : Nat) : Reader Json := fun s =>
  if dropped = 0 then .ok (whole negative digits, s) else decimal negative digits dropped s

theorem ends_endWhole (dropped : Nat) : Ends (endWhole negative digits dropped) := by
  unfold endWhole
  by_cases h : dropped = 0
  · simp only [h, if_true]
    exact .inl ⟨_, fun t => rfl⟩
  · simp only [h, if_false]
    exact ends_decimal _

theorem afterWhole_of_eq {s u : List Char} (hu : s.dropWhile isDigit = u)
    (hpoint : ∀ t, u ≠ '.' :: t) :
    afterWhole negative digits s =
      endOrExponent (endWhole negative digits (s.length - u.length))
        (exponent negative digits (s.length - u.length : Nat)) u := by
  cases u with
  | nil => rw [afterWhole_of_nil hu, endOrExponent, endWhole, List.length_nil, Nat.sub_zero]
  | cons c cs =>
    have hc : c ≠ '.' := fun h => hpoint cs (h ▸ rfl)
    rw [afterWhole_of_cons hu hc, endOrExponent, endWhole]

theorem afterWhole_frames (s : List Char) : Frames 0 (afterWhole negative digits) s := by
  obtain ⟨front, hfront, hcut⟩ := dropWhile_cut isDigit s
  generalize s.dropWhile isDigit = behind at hfront hcut
  have hdropped (u : List Char) : (front ++ u).length - u.length = front.length := by
    rw [List.length_append, Nat.add_sub_cancel]
  by_cases hpoint : ∃ t, behind = '.' :: t
  · obtain ⟨t, rfl⟩ := hpoint
    have hread (u : List Char) (hu : BeginsLike u t) :
        afterWhole negative digits (front ++ '.' :: u) =
          fraction negative digits front.length u := by
      have hdrop := hcut ('.' :: u) (.cons '.' u t)
      simp only [afterWhole, hdrop, hdropped]
    have hfraction : Frames 0 (fun u => afterWhole negative digits (front ++ u)) ('.' :: t) :=
      .cons (.congr hread (fraction_frames _ _))
    exact .of_front hfront (fun _ _ => rfl) hfraction
  · have hread (u : List Char) (hu : BeginsLike u behind) :
        afterWhole negative digits (front ++ u) =
          endOrExponent (endWhole negative digits front.length)
            (exponent negative digits front.length) u := by
      have hpoint' (t : List Char) : u ≠ '.' :: t := by
        rintro rfl
        cases behind with
        | nil => cases hu.eq_nil
        | cons c cs =>
          obtain hnone | ⟨t', ht'⟩ := hu.eq_cons
          · cases hnone
          · exact hpoint ⟨cs, congrArg (· :: cs) (List.cons.inj ht').1.symm⟩
      rw [afterWhole_of_eq (hcut u hu) hpoint', hdropped]
    exact .of_front hfront hread (endOrExponent_frames (ends_endWhole _) (exponent_frames _) _)

theorem number_frames_cons (c : Char) (cs : List Char) :
    Frames 0 (fun t => number negative (c :: t)) cs := by
  cases hc : digit? c with
  | none =>
    have hinvalid : number negative (c :: cs) = .error (.upon .invalidNumber (c :: cs)) := by
      simp only [number, hc]
    exact .of_error hinvalid
  | some d =>
    by_cases hzero : d = 0
    · subst hzero
      -- The character behind the zero is looked at, if it is still there.
      cases cs with
      | nil =>
        have hread (u : List Char) (hu : BeginsLike u []) :
            number negative (c :: u) = afterWhole negative 0 u := by
          rw [hu.eq_nil]
          simp only [number, hc]
        exact .congr hread (afterWhole_frames _)
      | cons e es =>
        cases he : isDigit e with
        | true =>
          have hinvalid : number negative (c :: e :: es) =
              .error (.upon .invalidNumber (e :: es)) := by
            simp only [number, hc, he, if_true]
          exact .of_error hinvalid
        | false =>
          have hnone : number negative [c] = afterWhole negative 0 [] := by simp only [number, hc]
          have hsome (t : List Char) :
              number negative (c :: e :: t) = afterWhole negative 0 (e :: t) := by
            simp only [number, hc, he, Bool.false_eq_true, if_false]
          exact .congr (forall_beginsLike_cons hnone hsome) (afterWhole_frames _)
    · obtain ⟨front, hfront, hcut⟩ := absorb_cut d cs
      have hread (u : List Char) (hu : BeginsLike u (absorb d cs).2.2) :
          number negative (c :: (front ++ u)) = afterWhole negative (absorb d cs).1 u := by
        rw [number_cons negative hc hzero, hcut u hu]
      exact .of_front hfront hread (afterWhole_frames _)

theorem number_frames (s : List Char) : Frames 0 (number negative) s := by
  cases s with
  | nil => exact .of_error rfl
  | cons c cs => exact .cons (number_frames_cons c cs)

end Numbers

/-! ## Words and strings -/

theorem word_eq_ok_iff (letters s rest : List Char) :
    word letters s = .ok rest ↔ s = letters ++ rest := by
  induction letters generalizing s with
  | nil => simp [word]
  | cons w ws ih =>
    cases s with
    | nil => simp [word]
    | cons c cs =>
      by_cases h : c = w
      · simp [word, h, ih]
      · simp [word, h]

/-- A word that is taken for a value. -/
theorem word_frames {α : Type} (letters : List Char) (j : α) (s : List Char) :
    Frames 0 (fun t => word letters t >>= fun u => .ok (j, u)) s := by
  intro x rest hx
  obtain ⟨t, ht, hgiven⟩ := exists_of_bind_eq_ok hx
  cases hgiven
  refine ⟨letters, (word_eq_ok_iff ..).mp ht, fun u _ _ => ?_⟩
  show word letters (letters ++ u) >>= _ = .ok (j, u)
  rw [(word_eq_ok_iff ..).mpr rfl]
  rfl

theorem hexQuad_frames (s : List Char) : Frames 0 hexQuad s := by
  intro n rest hn
  unfold hexQuad at hn
  split at hn
  · rename_i quad hquad
    cases hn
    unfold hexQuad? at hquad
    split at hquad
    · rename_i a b c d rest
      simp only [bind, Option.bind_eq_some_iff, pure, Option.some.injEq, Prod.mk.injEq] at hquad
      obtain ⟨a', ha, b', hb, c', hc, d', hd, rfl, rfl⟩ := hquad
      refine ⟨[a, b, c, d], rfl, fun u _ _ => ?_⟩
      simp [hexQuad, hexQuad?, ha, hb, hc, hd]
    · cases hquad
  · split at hn <;> cases hn

theorem trailingHalf_frames (leading : Nat) (s : List Char) :
    Frames 0 (trailingHalf leading) s := by
  have hcases : (∃ t, s = '\\' :: 'u' :: t) ∨ ∃ f, trailingHalf leading s = .error f := by
    unfold trailingHalf
    split
    · exact .inr ⟨_, rfl⟩
    · exact .inr ⟨_, rfl⟩
    · exact .inl ⟨_, rfl⟩
    · exact .inr ⟨_, rfl⟩
    · exact .inr ⟨_, rfl⟩
  rcases hcases with ⟨t, rfl⟩ | ⟨f, hf⟩
  · refine .cons (.cons (.bind (hexQuad_frames t) fun n t => ?_))
    exact .ite (fun _ => .ok _ t) fun _ => .of_error rfl
  · exact .of_error hf

theorem codeEscape_frames (s : List Char) : Frames 0 codeEscape s :=
  .bind (hexQuad_frames s) fun n t =>
    .ite (fun _ => .of_error rfl) fun _ =>
      .ite (fun _ => trailingHalf_frames n t) fun _ => .ok _ t

theorem escaped_frames (s : List Char) : Frames 0 escaped s := by
  cases s with
  | nil => exact .of_error rfl
  | cons c cs =>
    refine .cons ?_
    simp only [escaped]
    cases letterEscape? c with
    | some e => exact .ok e cs
    | none => exact .ite (fun _ => codeEscape_frames cs) fun _ => .of_error rfl

/-- A string ends with its closing quote. -/
theorem stringChars_closed (fuel : Nat) (s : List Char) : Closed (stringChars fuel) s := by
  induction fuel generalizing s with
  | zero => exact .of_error rfl
  | succ fuel ih =>
    have hmore (x : Char) (t : List Char) : Closed
        (fun u => stringChars fuel u >>= fun p => .ok (x :: p.1, p.2)) t :=
      .bind_check (ih t) fun xs => .inl ⟨x :: xs, fun _ => rfl⟩
    cases s with
    | nil => exact .of_error rfl
    | cons c cs =>
      by_cases hquote : c = '"'
      · exact .take (fun t => if_pos hquote) cs
      · refine .cons ?_
        simp only [stringChars, if_neg hquote]
        refine .ite (fun _ => .after (escaped_frames cs) hmore) fun _ => ?_
        exact .ite (fun _ => .of_error rfl) fun _ => hmore c cs

/-! ## Budgets of steps -/

/-- A reader that is given as many steps as the text is long, if any number beyond that makes no
difference. -/
theorem Frames.of_fuel {α : Type} {ahead : Nat} {run : Nat → Reader α} {s : List Char}
    (hfuel : ∀ {fuel fuel' : Nat} {s : List Char} {r : α × List Char}, run fuel s = .ok r →
      s.length < fuel' → run fuel' s = .ok r)
    (h : ∀ fuel, Frames ahead (run fuel) s) : Frames ahead (fun t => run (t.length + 1) t) s := by
  intro x rest hx
  obtain ⟨taken, rfl, hcut⟩ := h _ x rest hx
  exact ⟨taken, rfl, fun u hu hlength => hfuel (hcut u hu hlength) (Nat.lt_succ_self _)⟩

theorem Closed.of_fuel {α : Type} {run : Nat → Reader α} {s : List Char}
    (hfuel : ∀ {fuel fuel' : Nat} {s : List Char} {r : α × List Char}, run fuel s = .ok r →
      s.length < fuel' → run fuel' s = .ok r)
    (h : ∀ fuel, Closed (run fuel) s) : Closed (fun t => run (t.length + 1) t) s := by
  intro x rest hx
  obtain ⟨taken, hne, rfl, hcut⟩ := h _ x rest hx
  exact ⟨taken, hne, rfl, fun u => hfuel (hcut u) (Nat.lt_succ_self _)⟩

/-- A result that stays when both of its parts do. -/
theorem bind_eq_ok_of {α β : Type} {r r' : Except Fault α} {f f' : α → Except Fault β} {y : β}
    (h : (r >>= f) = .ok y) (hr : ∀ x, r = .ok x → r' = .ok x)
    (hf : ∀ x, r = .ok x → f x = .ok y → f' x = .ok y) : (r' >>= f') = .ok y := by
  obtain ⟨x, hx, hy⟩ := exists_of_bind_eq_ok h
  rw [hr x hx]
  exact hf x hx hy

theorem stringChars_fuel {fuel fuel' : Nat} {s : List Char} {r : List Char × List Char}
    (h : stringChars fuel s = .ok r) (hfuel : s.length < fuel') : stringChars fuel' s = .ok r := by
  induction fuel generalizing fuel' s r with
  | zero => cases h
  | succ fuel ih =>
    cases fuel' with
    | zero => cases hfuel
    | succ fuel' =>
      cases s with
      | nil => cases h
      | cons c cs =>
        have hlength : cs.length < fuel' := Nat.lt_of_succ_lt_succ hfuel
        simp only [stringChars] at h ⊢
        by_cases hquote : c = '"'
        · rwa [if_pos hquote] at h ⊢
        rw [if_neg hquote] at h ⊢
        by_cases hescape : c = '\\'
        · rw [if_pos hescape] at h ⊢
          refine bind_eq_ok_of h (fun x hx => hx) fun x hx hmore => ?_
          have hrest := (escaped_frames cs).length_le hx
          have hless : x.2.length < fuel' := Nat.lt_of_le_of_lt hrest hlength
          exact bind_eq_ok_of hmore (fun xs hxs => ih hxs hless) fun xs _ hgiven => hgiven
        rw [if_neg hescape] at h ⊢
        by_cases hcontrol : c.toNat < 32
        · rwa [if_pos hcontrol] at h ⊢
        rw [if_neg hcontrol] at h ⊢
        exact bind_eq_ok_of h (fun xs hxs => ih hxs hlength) fun xs _ hgiven => hgiven

theorem stringRest_closed (s : List Char) : Closed stringRest s :=
  .bind_check (.of_fuel stringChars_fuel fun fuel => stringChars_closed fuel s) fun cs =>
    .inl ⟨String.ofList cs, fun _ => rfl⟩

theorem stringRest_frames (s : List Char) : Frames 0 stringRest s := (stringRest_closed s).frames 0

end Json

end Flowline
