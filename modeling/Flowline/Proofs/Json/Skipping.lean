import Flowline.Json.Skip
import Flowline.Proofs.Json.Framing

/-!
# What is passed over

A member that no reader asks for is passed over, and this too looks at hardly anything behind what
it passes. Passing over is stated as reading: `passing` gives a value of its own for what it passes.
-/

namespace Flowline

namespace Json

/-- What passes over a part of a text, as a reader that gives nothing. -/
def passing (skip : List Char → Except Fault (List Char)) : Reader Unit :=
  fun s => skip s >>= fun rest => .ok ((), rest)

theorem passing_eq_ok_iff {skip : List Char → Except Fault (List Char)} {x : Unit}
    {s rest : List Char} : passing skip s = .ok (x, rest) ↔ skip s = .ok rest := by
  constructor
  · intro h
    obtain ⟨t, ht, hgiven⟩ := exists_of_bind_eq_ok h
    cases hgiven
    exact ht
  · intro h
    rw [passing, h]
    rfl

/-- What passes over the front of a text, and over the same part whatever comes behind it, if that
begins alike. -/
def Passes (skip : List Char → Except Fault (List Char)) (s : List Char) : Prop :=
  Frames 0 (passing skip) s

namespace Passes

variable {skip behind : List Char → Except Fault (List Char)} {s : List Char}

theorem of_error {f : Fault} (h : skip s = .error f) : Passes skip s := by
  have hread : passing skip s = .error f := by
    rw [passing, h]
    rfl
  exact Frames.of_error hread

/-- What stops where a text begins. -/
theorem stop (h : ∀ u, BeginsLike u s → skip u = .ok u) : Passes skip s := by
  have hread (u : List Char) (hu : BeginsLike u s) : passing skip u = .ok ((), u) := by
    rw [passing, h u hu]
    rfl
  exact Frames.congr hread (.ok () s)

theorem of_front {front t : List Char} (hs : s = front ++ t)
    (hskip : ∀ u, BeginsLike u t → skip (front ++ u) = behind u) (h : Passes behind t) :
    Passes skip s := by
  refine Frames.of_front hs (fun u hu => ?_) h
  rw [passing, hskip u hu]
  rfl

theorem congr (hskip : ∀ u, BeginsLike u s → skip u = behind u) (h : Passes behind s) :
    Passes skip s :=
  of_front (List.nil_append s).symm hskip h

theorem cons {c : Char} {cs : List Char} (h : Passes (fun t => skip (c :: t)) cs) :
    Passes skip (c :: cs) :=
  of_front List.singleton_append.symm (fun _ _ => rfl) h

theorem afterBlanks {f : Fault} (hskip : ∀ s, skip s = skip (skipBlanks s))
    (hnil : skip [] = .error f) (h : ∀ c cs, isBlank c = false → Passes skip (c :: cs))
    (s : List Char) : Passes skip s := by
  have hread (t : List Char) : passing skip t = passing skip (skipBlanks t) := by
    rw [passing, hskip]
    rfl
  have hnone : passing skip [] = .error f := by
    rw [passing, hnil]
    rfl
  exact Frames.afterBlanks hread hnone h s

theorem ite {p : Prop} [Decidable p] (hf : p → Passes skip s) (hg : ¬p → Passes behind s) :
    Passes (fun t => if p then skip t else behind t) s := by
  by_cases h : p
  · simp only [h, if_true]
    exact hf h
  · simp only [h, if_false]
    exact hg h

/-- A reader whose result decides what is passed over behind it. -/
theorem after {α : Type} {read : Reader α} {next : α × List Char → Except Fault (List Char)}
    (h : Frames 0 read s) (hnext : ∀ x t, Passes (fun u => next (x, u)) t) :
    Passes (fun t => read t >>= next) s := by
  have hread (t : List Char) : passing (fun t => read t >>= next) t =
      (read t >>= fun p => passing (fun u => next (p.1, u)) p.2) := by
    simp only [passing]
    cases read t <;> rfl
  exact Frames.congr (fun u _ => hread u) (.bind h hnext)

/-- One part after the other. -/
theorem bind (h : Passes skip s) (hbehind : ∀ t, Passes behind t) :
    Passes (fun t => skip t >>= behind) s := by
  have hread (t : List Char) : (skip t >>= behind) = (passing skip t >>= fun p => behind p.2) := by
    simp only [passing]
    cases skip t <;> rfl
  exact congr (fun u _ => hread u) (after h fun _ => hbehind)

/-- What is passed over in front of a value that does not depend on it. -/
theorem frames {α : Type} (h : Passes skip s) (x : α) :
    Frames 0 (fun t => skip t >>= fun u => .ok (x, u)) s := by
  have hread (t : List Char) : (skip t >>= fun u => (.ok (x, u) : Except Fault (α × List Char))) =
      (passing skip t >>= fun p => .ok (x, p.2)) := by
    simp only [passing]
    cases skip t <;> rfl
  exact .congr (fun u _ => hread u) (.bind h fun _ t => .ok x t)

end Passes

theorem TakesMark.passes {mark : Char} {take : List Char → Except Fault (List Char)}
    (h : TakesMark mark take) (s : List Char) : Passes take s :=
  h.frames_after (fun t => .ok () t) s

theorem word_passes (letters s : List Char) : Passes (word letters) s := word_frames letters () s

/-! ## Strings -/

theorem skipString_passes (fuel : Nat) (s : List Char) : Passes (skipString fuel) s := by
  induction fuel generalizing s with
  | zero => exact .of_error rfl
  | succ fuel ih =>
    cases s with
    | nil => exact .of_error rfl
    | cons c cs =>
      refine .cons ?_
      simp only [skipString]
      refine .ite (fun _ => .stop fun u _ => rfl) fun _ => ?_
      refine .ite (fun _ => ?_) fun _ => .ite (fun _ => .of_error rfl) fun _ => ih cs
      cases cs with
      | nil => exact .of_error rfl
      | cons e es =>
        refine .cons (.ite (fun _ => ih es) fun _ => .ite (fun _ => ?_) fun _ => .of_error rfl)
        exact .after (hexQuad_frames es) fun _ t => ih t

theorem skipString_fuel {fuel fuel' : Nat} {s rest : List Char}
    (h : skipString fuel s = .ok rest) (hfuel : s.length < fuel') :
    skipString fuel' s = .ok rest := by
  induction fuel generalizing fuel' s with
  | zero => cases h
  | succ fuel ih =>
    cases fuel' with
    | zero => cases hfuel
    | succ fuel' =>
      cases s with
      | nil => cases h
      | cons c cs =>
        have hlength : cs.length < fuel' := Nat.lt_of_succ_lt_succ hfuel
        by_cases hquote : c = '"'
        · simp only [skipString, if_pos hquote] at h ⊢
          exact h
        by_cases hescape : c = '\\'
        · cases cs with
          | nil =>
            simp only [skipString, if_neg hquote, if_pos hescape] at h
            cases h
          | cons e es =>
            have hless : es.length < fuel' := Nat.lt_of_succ_lt hlength
            simp only [skipString, if_neg hquote, if_pos hescape] at h ⊢
            by_cases hletter : (letterEscape? e).isSome
            · rw [if_pos hletter] at h ⊢
              exact ih h hless
            rw [if_neg hletter] at h ⊢
            by_cases hcode : e = 'u'
            · rw [if_pos hcode] at h ⊢
              refine bind_eq_ok_of h (fun quad hquad => hquad) fun quad hquad hmore => ?_
              have hle := (hexQuad_frames es).length_le hquad
              exact ih hmore (Nat.lt_of_le_of_lt hle hless)
            · rw [if_neg hcode] at h
              cases h
        by_cases hcontrol : c.toNat < 32
        · simp only [skipString, if_neg hquote, if_neg hescape, if_pos hcontrol] at h
          cases h
        · simp only [skipString, if_neg hquote, if_neg hescape, if_neg hcontrol] at h ⊢
          exact ih h hlength

/-- A string is passed over in as many steps as the text is long. -/
theorem skipString_length_passes (s : List Char) :
    Passes (fun t => skipString (t.length + 1) t) s := by
  have hfuel {fuel fuel' : Nat} {s : List Char} {r : Unit × List Char}
      (h : passing (skipString fuel) s = .ok r) (hless : s.length < fuel') :
      passing (skipString fuel') s = .ok r :=
    passing_eq_ok_iff.mpr (skipString_fuel (passing_eq_ok_iff.mp h) hless)
  exact Frames.of_fuel hfuel fun fuel => skipString_passes fuel s

/-! ## Numbers -/

/-- Passes over the digits of an exponent whose sign has been taken. -/
def skipDigits : List Char → Except Fault (List Char)
  | [] => .error (.upon .invalidNumber [])
  | c :: cs =>
    if isDigit c then .ok (cs.dropWhile isDigit) else .error (.upon .invalidNumber (c :: cs))

theorem dropDigits_passes {behind : List Char → Except Fault (List Char)}
    (h : ∀ s, Passes behind s) (s : List Char) :
    Passes (fun t => behind (t.dropWhile isDigit)) s := by
  obtain ⟨front, hfront, hcut⟩ := dropWhile_cut isDigit s
  exact .of_front hfront (fun u hu => congrArg behind (hcut u hu)) (h _)

theorem skipDigits_passes_cons (c : Char) (cs : List Char) :
    Passes (fun t => skipDigits (c :: t)) cs :=
  .ite (fun _ => dropDigits_passes (fun _ => .stop fun _ _ => rfl) cs) fun _ => .of_error rfl

theorem skipExponent_passes (s : List Char) : Passes skipExponent s := by
  cases s with
  | nil => exact .of_error rfl
  | cons c cs =>
    refine .cons ?_
    by_cases hsign : c = '+' ∨ c = '-'
    · have hskip (t : List Char) : skipExponent (c :: t) = skipDigits t := by
        rcases hsign with rfl | rfl <;> rfl
      simp only [hskip]
      cases cs with
      | nil => exact .of_error rfl
      | cons d ds => exact .cons (skipDigits_passes_cons d ds)
    · have hskip (t : List Char) : skipExponent (c :: t) = skipDigits (c :: t) := by
        unfold skipExponent
        split <;> simp_all [skipDigits]
      simp only [hskip]
      exact skipDigits_passes_cons c cs

/-- Passes over an exponent, if there is one. -/
def skipEnd : List Char → Except Fault (List Char)
  | [] => .ok []
  | c :: cs => if isExponentMark c then skipExponent cs else .ok (c :: cs)

theorem skipEnd_passes (s : List Char) : Passes skipEnd s := by
  cases s with
  | nil =>
    refine .stop fun u hu => ?_
    rw [hu.eq_nil]
    rfl
  | cons c cs =>
    by_cases hmark : isExponentMark c = true
    · refine .cons ?_
      simpa only [skipEnd, if_pos hmark] using skipExponent_passes cs
    · exact .stop (forall_beginsLike_cons rfl fun t => if_neg hmark)

theorem skipFraction_passes (s : List Char) : Passes skipFraction s := by
  cases s with
  | nil => exact .of_error rfl
  | cons c cs =>
    have hskip (t : List Char) : skipFraction (c :: t) =
        if isDigit c then skipEnd (t.dropWhile isDigit)
        else .error (.upon .invalidNumber (c :: t)) := by
      rw [skipFraction]
      cases t.dropWhile isDigit <;> rfl
    refine .cons ?_
    simp only [hskip]
    exact .ite (fun _ => dropDigits_passes skipEnd_passes cs) fun _ => .of_error rfl

theorem skipAfterWhole_passes (s : List Char) : Passes skipAfterWhole s := by
  cases s with
  | nil =>
    refine .stop fun u hu => ?_
    rw [hu.eq_nil]
    rfl
  | cons c cs =>
    by_cases hpoint : c = '.'
    · refine .cons ?_
      simpa only [skipAfterWhole, if_pos hpoint] using skipFraction_passes cs
    · have hskip (t : List Char) : skipAfterWhole (c :: t) = skipEnd (c :: t) := if_neg hpoint
      have hread : ∀ u, BeginsLike u (c :: cs) → skipAfterWhole u = skipEnd u :=
        forall_beginsLike_cons rfl hskip
      exact .congr hread (skipEnd_passes (c :: cs))

theorem skipNumber_passes_cons (c : Char) (cs : List Char) :
    Passes (fun t => skipNumber (c :: t)) cs := by
  cases hc : digit? c with
  | none =>
    have hinvalid : skipNumber (c :: cs) = .error (.upon .invalidNumber (c :: cs)) := by
      simp only [skipNumber, hc]
    exact .of_error hinvalid
  | some d =>
    by_cases hzero : d = 0
    · subst hzero
      -- The character behind the zero is looked at, if it is still there.
      cases cs with
      | nil =>
        refine .stop fun u hu => ?_
        rw [hu.eq_nil]
        simp only [skipNumber, hc]
      | cons e es =>
        cases he : isDigit e with
        | true =>
          have hinvalid : skipNumber (c :: e :: es) = .error (.upon .invalidNumber (e :: es)) := by
            simp only [skipNumber, hc, he, if_true]
          exact .of_error hinvalid
        | false =>
          have hnone : skipNumber [c] = skipAfterWhole [] := by
            simp only [skipNumber, hc, skipAfterWhole]
          have hsome (t : List Char) : skipNumber (c :: e :: t) = skipAfterWhole (e :: t) := by
            simp only [skipNumber, hc, he, Bool.false_eq_true, if_false]
          exact .congr (forall_beginsLike_cons hnone hsome) (skipAfterWhole_passes _)
    · have hskip (t : List Char) :
          skipNumber (c :: t) = skipAfterWhole (t.dropWhile isDigit) := by
        simp only [skipNumber, hc]
      simp only [hskip]
      exact dropDigits_passes skipAfterWhole_passes cs

theorem skipNumber_passes (s : List Char) : Passes skipNumber s := by
  cases s with
  | nil => exact .of_error rfl
  | cons c cs => exact .cons (skipNumber_passes_cons c cs)

/-! ## Values -/

theorem skipKey_passes_cons {c : Char} (hc : isBlank c = false) (cs : List Char) :
    Passes (fun t => skipKey (c :: t)) cs := by
  simp only [skipKey, skipBlanks_cons hc]
  refine .ite (fun _ => ?_) fun _ => .of_error rfl
  exact .bind (skipString_length_passes cs) takesMark_colon.passes

theorem skipKey_passes (s : List Char) : Passes skipKey s := by
  have hblanks (t : List Char) : skipKey t = skipKey (skipBlanks t) := by
    rw [skipKey, skipKey, skipBlanks_skipBlanks]
  exact .afterBlanks hblanks rfl (fun c cs hc => .cons (skipKey_passes_cons hc cs)) s

section Inner

variable {inner : Char → List Char → Except Fault (List Char)}

theorem skipWith_passes_cons (h : ∀ bracket s, Passes (inner bracket) s) {c : Char}
    (hc : isBlank c = false) (cs : List Char) : Passes (fun t => skipWith inner (c :: t)) cs := by
  simp only [skipWith, skipBlanks_cons hc]
  -- The branches stand in the order in which the first character is looked at.
  refine .ite (fun _ => word_passes _ cs) fun _ => ?_
  refine .ite (fun _ => word_passes _ cs) fun _ => ?_
  refine .ite (fun _ => word_passes _ cs) fun _ => ?_
  refine .ite (fun _ => skipNumber_passes cs) fun _ => ?_
  refine .ite (fun _ => skipNumber_passes_cons c cs) fun _ => ?_
  refine .ite (fun _ => skipString_length_passes cs) fun _ => ?_
  exact .ite (fun _ => h c cs) fun _ => .of_error rfl

theorem skipWith_passes (h : ∀ bracket s, Passes (inner bracket) s) (s : List Char) :
    Passes (skipWith inner) s := by
  have hblanks (t : List Char) : skipWith inner t = skipWith inner (skipBlanks t) := by
    rw [skipWith, skipWith, skipBlanks_skipBlanks]
  exact .afterBlanks hblanks rfl (fun c cs hc => .cons (skipWith_passes_cons h hc cs)) s

end Inner

theorem skipItems_skipBlanks (fuel : Nat) (bracket : Char) (first : Bool) (s : List Char) :
    skipItems fuel bracket first s = skipItems fuel bracket first (skipBlanks s) := by
  cases fuel with
  | zero => rfl
  | succ fuel => rw [skipItems, skipItems, skipBlanks_skipBlanks]

/-- Passes over the value of an item or a member, and over all that follow. -/
def skipMore (fuel : Nat) (bracket : Char) (s : List Char) : Except Fault (List Char) :=
  skipValue fuel s >>= skipItems fuel bracket false

/-- Passes over an item of an array or a member of an object, and over all that follow. -/
def skipItem (fuel : Nat) (bracket : Char) (s : List Char) : Except Fault (List Char) :=
  if bracket = '[' then skipMore fuel bracket s else skipKey s >>= skipMore fuel bracket

theorem skipItems_cons (fuel : Nat) (bracket : Char) (first : Bool) {c : Char}
    (hc : isBlank c = false) (cs : List Char) :
    skipItems (fuel + 1) bracket first (c :: cs) =
      if c = (if bracket = '[' then ']' else '\x7d') then .ok cs
      else if first then skipItem fuel bracket (c :: cs)
      else if c = ',' then skipItem fuel bracket cs
      else .error (.upon (if bracket = '[' then .expectedCommaOrBracket else .expectedCommaOrBrace)
        (c :: cs)) := by
  simp only [skipItems, skipBlanks_cons hc, skipItem]
  by_cases hbracket : bracket = '['
  · cases first <;> simp [hbracket] <;> rfl
  · cases first <;> simp [hbracket] <;> rfl

/-- With so many steps, values and the items of arrays and objects are passed over. -/
theorem skipValue_passes_aux (fuel : Nat) :
    (∀ c cs, isBlank c = false → Passes (fun t => skipValue fuel (c :: t)) cs) ∧
      (∀ s, Passes (skipValue fuel) s) ∧
      ∀ bracket first s, Passes (skipItems fuel bracket first) s := by
  induction fuel with
  | zero => exact ⟨fun _ _ _ => .of_error rfl, fun _ => .of_error rfl, fun _ _ _ => .of_error rfl⟩
  | succ fuel ih =>
    obtain ⟨hcons, hvalue, hitems⟩ := ih
    have hinner (bracket : Char) (s : List Char) : Passes (skipItems fuel bracket true) s :=
      hitems bracket true s
    refine ⟨fun c cs hc => skipWith_passes_cons hinner hc cs, skipWith_passes hinner,
      fun bracket first s => ?_⟩
    have hmore (t : List Char) : Passes (skipMore fuel bracket) t :=
      .bind (hvalue t) (hitems bracket false)
    have hitem (t : List Char) : Passes (skipItem fuel bracket) t :=
      .ite (fun _ => hmore t) fun _ => .bind (skipKey_passes t) hmore
    have hitem_cons {c : Char} (hc : isBlank c = false) (cs : List Char) :
        Passes (fun t => skipItem fuel bracket (c :: t)) cs :=
      .ite (fun _ => .bind (hcons c cs hc) (hitems bracket false)) fun _ =>
        .bind (skipKey_passes_cons hc cs) hmore
    refine .afterBlanks (skipItems_skipBlanks _ bracket first) rfl (fun c cs hc => .cons ?_) s
    simp only [skipItems_cons fuel bracket first hc]
    refine .ite (fun _ => .stop fun u _ => rfl) fun _ => ?_
    refine .ite (fun _ => hitem_cons hc cs) fun _ => ?_
    exact .ite (fun _ => hitem cs) fun _ => .of_error rfl

/-! ## Budgets of steps -/

theorem Passes.length_le {skip : List Char → Except Fault (List Char)} {s rest : List Char}
    (h : Passes skip s) (hskip : skip s = .ok rest) : rest.length ≤ s.length :=
  Frames.length_le h (passing_eq_ok_iff (x := ()).mpr hskip)

theorem length_lt_of_skipValue {fuel : Nat} {s rest : List Char}
    (h : skipValue fuel s = .ok rest) : rest.length < s.length := by
  have hnil : ∃ f, passing (skipValue fuel) [] = .error f := by
    cases fuel <;> exact ⟨_, rfl⟩
  obtain ⟨f, hf⟩ := hnil
  exact Frames.length_lt ((skipValue_passes_aux fuel).2.1 s) hf (passing_eq_ok_iff (x := ()).mpr h)

theorem length_skipBlanks (s : List Char) : (skipBlanks s).length ≤ s.length :=
  (List.dropWhile_sublist isBlank).length_le

/-- What is passed over inside of brackets is shorter than the text. -/
theorem skipWith_inner {inner inner' : Char → List Char → Except Fault (List Char)}
    {s rest : List Char} (h : skipWith inner s = .ok rest)
    (hinner : ∀ bracket cs, cs.length < s.length → inner bracket cs = .ok rest →
      inner' bracket cs = .ok rest) : skipWith inner' s = .ok rest := by
  have hlength : (skipBlanks s).length ≤ s.length := length_skipBlanks s
  cases hs : skipBlanks s with
  | nil =>
    simp only [skipWith, hs] at h
    cases h
  | cons c cs =>
    rw [hs, List.length_cons] at hlength
    simp only [skipWith, hs] at h ⊢
    iterate 6
      split
      · rename_i hc
        rwa [if_pos hc] at h
      rename_i hc
      rw [if_neg hc] at h
    split
    · rename_i hc
      rw [if_pos hc] at h
      exact hinner c cs hlength h
    · rename_i hc
      rwa [if_neg hc] at h

theorem skipItem_fuel {fuel fuel' : Nat} {bracket : Char} {s rest : List Char}
    (hvalue : ∀ {s rest}, skipValue fuel s = .ok rest → 2 * s.length + 1 ≤ fuel' →
      skipValue fuel' s = .ok rest)
    (hitems : ∀ {s rest}, skipItems fuel bracket false s = .ok rest → 2 * s.length + 2 ≤ fuel' →
      skipItems fuel' bracket false s = .ok rest)
    (h : skipItem fuel bracket s = .ok rest) (hfuel : 2 * s.length + 1 ≤ fuel') :
    skipItem fuel' bracket s = .ok rest := by
  have hmore {t : List Char} (ht : skipMore fuel bracket t = .ok rest)
      (hlength : t.length ≤ s.length) : skipMore fuel' bracket t = .ok rest := by
    refine bind_eq_ok_of ht (fun t' ht' => hvalue ht' (by omega)) fun t' ht' hrest => ?_
    have hlt := length_lt_of_skipValue ht'
    exact hitems hrest (by omega)
  unfold skipItem at h ⊢
  by_cases hbracket : bracket = '['
  · rw [if_pos hbracket] at h ⊢
    exact hmore h (Nat.le_refl _)
  · rw [if_neg hbracket] at h ⊢
    refine bind_eq_ok_of h (fun t ht => ht) fun t ht hrest => ?_
    exact hmore hrest ((skipKey_passes s).length_le ht)

/-- What is passed over up to a closing bracket is the bracket or begins with an item, which is no
longer than the text. -/
theorem skipItems_inner {fuel fuel' : Nat} {bracket : Char} {first : Bool} {s rest : List Char}
    (h : skipItems (fuel + 1) bracket first s = .ok rest)
    (hitem : ∀ t, t.length ≤ s.length → skipItem fuel bracket t = .ok rest →
      skipItem fuel' bracket t = .ok rest) : skipItems (fuel' + 1) bracket first s = .ok rest := by
  have hlength : (skipBlanks s).length ≤ s.length := length_skipBlanks s
  rw [skipItems_skipBlanks] at h ⊢
  cases hs : skipBlanks s with
  | nil =>
    simp only [hs, skipItems] at h
    cases h
  | cons c cs =>
    have hc := isBlank_of_skipBlanks hs
    rw [hs] at h hlength
    rw [skipItems_cons _ _ _ hc] at h ⊢
    by_cases hclose : c = (if bracket = '[' then ']' else '\x7d')
    · rwa [if_pos hclose] at h ⊢
    rw [if_neg hclose] at h ⊢
    by_cases hfirst : first = true
    · rw [if_pos hfirst] at h ⊢
      exact hitem _ hlength h
    rw [if_neg hfirst] at h ⊢
    by_cases hcomma : c = ','
    · rw [if_pos hcomma] at h ⊢
      exact hitem _ (Nat.le_of_succ_le hlength) h
    · rw [if_neg hcomma] at h
      cases h

theorem skipValue_fuel_aux (fuel : Nat) :
    (∀ {fuel' s rest}, skipValue fuel s = .ok rest → 2 * s.length + 1 ≤ fuel' →
      skipValue fuel' s = .ok rest) ∧
    ∀ {fuel' bracket first s rest}, skipItems fuel bracket first s = .ok rest →
      2 * s.length + 2 ≤ fuel' → skipItems fuel' bracket first s = .ok rest := by
  induction fuel with
  | zero =>
    constructor
    · intro fuel' s rest h
      cases h
    · intro fuel' bracket first s rest h
      cases h
  | succ fuel ih =>
    obtain ⟨hvalue, hitems⟩ := ih
    constructor
    · intro fuel' s rest h hfuel
      obtain ⟨fuel', rfl⟩ : ∃ n, fuel' = n + 1 := ⟨fuel' - 1, by omega⟩
      refine skipWith_inner h fun bracket cs hlength hcs => ?_
      exact hitems hcs (by omega)
    · intro fuel' bracket first s rest h hfuel
      obtain ⟨fuel', rfl⟩ : ∃ n, fuel' = n + 1 := ⟨fuel' - 1, by omega⟩
      refine skipItems_inner h fun t hlength ht => ?_
      exact skipItem_fuel hvalue hitems ht (by omega)

theorem skipValue_fuel {fuel fuel' : Nat} {s rest : List Char} (h : skipValue fuel s = .ok rest)
    (hfuel : 2 * s.length + 1 ≤ fuel') : skipValue fuel' s = .ok rest :=
  (skipValue_fuel_aux fuel).1 h hfuel

/-- A value of any depth is passed over, and nothing else is looked at. -/
theorem skip_passes (s : List Char) : Passes skip s := by
  intro x rest h
  have hskip : skipValue (2 * s.length + 2) s = .ok rest := passing_eq_ok_iff.mp h
  obtain ⟨taken, htaken, hcut⟩ :=
    (skipValue_passes_aux _).2.1 s () rest (passing_eq_ok_iff.mpr hskip)
  refine ⟨taken, htaken, fun u hu hlength => passing_eq_ok_iff.mpr ?_⟩
  exact skipValue_fuel (passing_eq_ok_iff.mp (hcut u hu hlength)) (Nat.le_succ _)

end Json

end Flowline
