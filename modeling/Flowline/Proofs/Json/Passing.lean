import Flowline.Proofs.Json.Objects
import Flowline.Proofs.Json.Skipping

/-!
# What is read can be passed over

Passing over a value goes by the same grammar as reading it and looks at less, so that it takes
whatever reading takes, up to the same place. The converse fails: a number that is out of range,
half of a surrogate pair or a value that is nested too deep can only be passed over.
-/

namespace Flowline

namespace Json

/-- What is read is passed over, up to the same place. -/
def PassedBy {α : Type} (read : Except Fault (α × List Char)) (skip : Except Fault (List Char)) :
    Prop :=
  ∀ x rest, read = .ok (x, rest) → skip = .ok rest

namespace PassedBy

variable {α : Type}

theorem ok (x : α) (s : List Char) : PassedBy (.ok (x, s)) (.ok s) := by
  intro y rest h
  cases h
  rfl

theorem error (f : Fault) (skip : Except Fault (List Char)) :
    PassedBy (.error f : Except Fault (α × List Char)) skip := by
  intro x rest h
  cases h

end PassedBy

/-! ## Numbers -/

section Numbers

variable {negative : Bool} {digits : Nat}

theorem isDigit_of_digit? {c : Char} {d : Nat} (h : digit? c = some d) : isDigit c = true := by
  rw [isDigit, h]
  rfl

theorem isDigit_of_digit?_eq_none {c : Char} (h : digit? c = none) : isDigit c = false := by
  rw [isDigit, h]
  rfl

theorem dropWhile_cons_of_not_isDigit {c : Char} (h : isDigit c = false) (cs : List Char) :
    (c :: cs).dropWhile isDigit = c :: cs := by
  rw [List.dropWhile_cons, h]
  rfl

/-- Digits that no longer fit are left, and passed over with the others. -/
theorem dropWhile_absorb (n : Nat) (s : List Char) :
    (absorb n s).2.2.dropWhile isDigit = s.dropWhile isDigit := by
  induction s generalizing n with
  | nil => rfl
  | cons c cs ih =>
    unfold absorb
    split
    · rename_i d hd
      split
      · rw [List.dropWhile_cons_of_pos (isDigit_of_digit? hd)]
        exact ih _
      · rfl
    · rfl

theorem dropWhile_exponentDigits (n : Nat) (s : List Char) :
    (exponentDigits n s).2.dropWhile isDigit = s.dropWhile isDigit ∧
      ∀ e, (exponentDigits n s).1 = some e → (exponentDigits n s).2 = s.dropWhile isDigit := by
  induction s generalizing n with
  | nil => exact ⟨rfl, fun _ _ => rfl⟩
  | cons c cs ih =>
    unfold exponentDigits
    split
    · rename_i d hd
      rw [List.dropWhile_cons_of_pos (isDigit_of_digit? hd)]
      split
      · exact ih _
      · exact ⟨rfl, fun e he => absurd he.symm (Option.some_ne_none e)⟩
    · rename_i hd
      have hstop : isDigit c = false := isDigit_of_digit?_eq_none hd
      exact ⟨rfl, fun _ _ => (dropWhile_cons_of_not_isDigit hstop cs).symm⟩

theorem decimal_passed (exponent : Int) (s : List Char) :
    PassedBy (decimal negative digits exponent s) (.ok s) := by
  unfold decimal
  split
  · exact .ok _ s
  · exact .error _ _

theorem unsignedExponent_passed (shift : Int) (below : Bool) (s : List Char) :
    PassedBy (unsignedExponent negative digits shift below s) (skipDigits s) := by
  unfold unsignedExponent
  split
  · exact .error _ _
  · rename_i c cs
    split
    · exact .error _ _
    · rename_i d hd
      obtain ⟨hdrop, hall⟩ := dropWhile_exponentDigits d cs
      rw [skipDigits, if_pos (isDigit_of_digit? hd)]
      split
      · rename_i e rest he
        rw [he] at hall
        rw [← hall e rfl]
        exact decimal_passed _ rest
      · rename_i rest he
        rw [he] at hdrop
        rw [← hdrop]
        split
        · exact .error _ _
        · exact .ok _ _

theorem exponent_passed (shift : Int) (s : List Char) :
    PassedBy (exponent negative digits shift s) (skipExponent s) := by
  unfold exponent
  split
  · exact unsignedExponent_passed shift false _
  · exact unsignedExponent_passed shift true _
  · rename_i hplus hminus
    have hskip : skipExponent s = skipDigits s := by
      unfold skipExponent
      split
      · exact absurd rfl (hplus _)
      · exact absurd rfl (hminus _)
      · rfl
    rw [hskip]
    exact unsignedExponent_passed shift false s

theorem endOrExponent_passed {ended exponent : Reader Json}
    (hended : ∀ s, PassedBy (ended s) (.ok s))
    (hexponent : ∀ s, PassedBy (exponent s) (skipExponent s)) (s : List Char) :
    PassedBy (endOrExponent ended exponent s) (skipEnd s) := by
  cases s with
  | nil => exact hended []
  | cons c cs =>
    rw [endOrExponent, skipEnd]
    split
    · exact hexponent cs
    · exact hended (c :: cs)

theorem skipFraction_cons {c : Char} (hc : isDigit c = true) (cs : List Char) :
    skipFraction (c :: cs) = skipEnd (cs.dropWhile isDigit) := by
  rw [skipFraction, if_pos hc]
  cases cs.dropWhile isDigit <;> rfl

theorem fraction_passed (shift : Int) (s : List Char) :
    PassedBy (fraction negative digits shift s) (skipFraction s) := by
  obtain ⟨hnone, hsome⟩ :=
    @fraction_of_eq negative digits s _ (dropWhile_absorb digits s) shift
  by_cases hdigits : s = s.dropWhile isDigit
  · obtain ⟨f, hf⟩ := hnone hdigits
    rw [hf]
    exact .error f _
  · rw [hsome hdigits]
    cases s with
    | nil => exact absurd rfl hdigits
    | cons c cs =>
      cases hc : isDigit c with
      | false => exact absurd (dropWhile_cons_of_not_isDigit hc cs).symm hdigits
      | true =>
        rw [List.dropWhile_cons_of_pos hc, skipFraction_cons hc]
        exact endOrExponent_passed (decimal_passed _) (exponent_passed _) _

theorem endWhole_passed (dropped : Nat) (s : List Char) :
    PassedBy (endWhole negative digits dropped s) (.ok s) := by
  unfold endWhole
  split
  · exact .ok _ s
  · exact decimal_passed _ s

theorem afterWhole_passed (s : List Char) :
    PassedBy (afterWhole negative digits s) (skipAfterWhole (s.dropWhile isDigit)) := by
  generalize hbehind : s.dropWhile isDigit = behind
  by_cases hpoint : ∃ t, behind = '.' :: t
  · obtain ⟨t, rfl⟩ := hpoint
    simp only [afterWhole, hbehind]
    exact fraction_passed _ t
  · have hpoint' (t : List Char) : behind ≠ '.' :: t := fun h => hpoint ⟨t, h⟩
    have hskip : skipAfterWhole behind = skipEnd behind := by
      cases behind with
      | nil => rfl
      | cons c cs =>
        have hc : c ≠ '.' := fun h => hpoint' cs (congrArg (· :: cs) h)
        exact if_neg hc
    rw [afterWhole_of_eq hbehind hpoint', hskip]
    exact endOrExponent_passed (endWhole_passed _) (exponent_passed _) behind

theorem number_passed (s : List Char) : PassedBy (number negative s) (skipNumber s) := by
  cases s with
  | nil => exact .error _ _
  | cons c cs =>
    cases hc : digit? c with
    | none =>
      simp only [number, hc]
      exact .error _ _
    | some d =>
      by_cases hzero : d = 0
      · subst hzero
        cases cs with
        | nil =>
          simp only [number, skipNumber, hc]
          exact afterWhole_passed []
        | cons e es =>
          simp only [number, skipNumber, hc]
          cases he : isDigit e with
          | true => exact .error _ _
          | false =>
            have hrest : PassedBy (afterWhole negative 0 (e :: es))
                (skipAfterWhole ((e :: es).dropWhile isDigit)) := afterWhole_passed (e :: es)
            rw [dropWhile_cons_of_not_isDigit he] at hrest
            exact hrest
      · have hskip : skipNumber (c :: cs) = skipAfterWhole (cs.dropWhile isDigit) := by
          simp only [skipNumber, hc]
        rw [number_cons negative hc hzero, hskip, ← dropWhile_absorb d cs]
        exact afterWhole_passed _

end Numbers

/-! ## Strings -/

theorem skipString_of_hexQuad {s t rest : List Char} {n fuel : Nat} (h : hexQuad s = .ok (n, t))
    (hmore : skipString fuel t = .ok rest) :
    skipString (fuel + 1) ('\\' :: 'u' :: s) = .ok rest := by
  have hquote : '\\' ≠ '"' := by decide
  have hletter : ¬(letterEscape? 'u').isSome = true := by decide
  simp only [skipString, if_neg hquote, if_neg hletter, if_true, h]
  exact hmore

/-- A pair of surrogates is one character, and two escapes to pass over. -/
theorem exists_skipString_of_codeEscape {s t rest : List Char} {c : Char} {fuel : Nat}
    (h : codeEscape s = .ok (c, t)) (hmore : skipString fuel t = .ok rest) :
    ∃ fuel, skipString fuel ('\\' :: 'u' :: s) = .ok rest := by
  obtain ⟨⟨n, u⟩, hu, hcode⟩ := exists_of_bind_eq_ok h
  simp only at hcode
  split at hcode
  · cases hcode
  split at hcode
  · unfold trailingHalf at hcode
    split at hcode
    · cases hcode
    · cases hcode
    · obtain ⟨⟨m, v⟩, hv, hpair⟩ := exists_of_bind_eq_ok hcode
      simp only at hpair
      split at hpair
      · obtain ⟨-, rfl⟩ := Prod.mk.inj (Except.ok.inj hpair)
        exact ⟨_, skipString_of_hexQuad hu (skipString_of_hexQuad hv hmore)⟩
      · cases hpair
    · cases hcode
    · cases hcode
  · cases hcode
    exact ⟨_, skipString_of_hexQuad hu hmore⟩

theorem exists_skipString_of_escaped {s t rest : List Char} {c : Char} {fuel : Nat}
    (h : escaped s = .ok (c, t)) (hmore : skipString fuel t = .ok rest) :
    ∃ fuel, skipString fuel ('\\' :: s) = .ok rest := by
  cases s with
  | nil => cases h
  | cons e es =>
    cases hletter : letterEscape? e with
    | some x =>
      simp only [escaped, hletter] at h
      cases h
      refine ⟨fuel + 1, ?_⟩
      rw [skipString, if_neg (by decide), if_pos rfl]
      simp only [hletter, Option.isSome_some, if_true]
      exact hmore
    | none =>
      simp only [escaped, hletter] at h
      split at h
      · rename_i hcode
        subst hcode
        exact exists_skipString_of_codeEscape h hmore
      · cases h

theorem exists_skipString {fuel : Nat} {s rest : List Char} {cs : List Char}
    (h : stringChars fuel s = .ok (cs, rest)) : ∃ fuel, skipString fuel s = .ok rest := by
  induction fuel generalizing s cs with
  | zero => cases h
  | succ fuel ih =>
    cases s with
    | nil => cases h
    | cons c s =>
      unfold stringChars at h
      split at h
      · rename_i hquote
        cases h
        exact ⟨1, if_pos hquote⟩
      rename_i hquote
      split at h
      · rename_i hescape
        subst hescape
        obtain ⟨⟨x, t⟩, hescaped, hmore⟩ := exists_of_bind_eq_ok h
        obtain ⟨⟨xs, u⟩, hchars, hgiven⟩ := exists_of_bind_eq_ok hmore
        cases hgiven
        obtain ⟨fuel', hskip⟩ := ih hchars
        exact exists_skipString_of_escaped hescaped hskip
      rename_i hescape
      split at h
      · cases h
      · rename_i hcontrol
        obtain ⟨⟨xs, u⟩, hchars, hgiven⟩ := exists_of_bind_eq_ok h
        cases hgiven
        obtain ⟨fuel', hskip⟩ := ih hchars
        refine ⟨fuel' + 1, ?_⟩
        simp only [skipString, if_neg hquote, if_neg hescape, if_neg hcontrol]
        exact hskip

theorem stringRest_passed (s : List Char) :
    PassedBy (stringRest s) (skipString (s.length + 1) s) := by
  intro t rest h
  obtain ⟨⟨cs, u⟩, hchars, hgiven⟩ := exists_of_bind_eq_ok h
  cases hgiven
  obtain ⟨fuel, hskip⟩ := exists_skipString hchars
  exact skipString_fuel hskip (Nat.lt_succ_self _)

/-! ## Arrays and objects -/

/-- With enough steps, a value is passed over. -/
theorem skip_of_skipValue {fuel : Nat} {s rest : List Char} (h : skipValue fuel s = .ok rest) :
    skip s = .ok rest :=
  skipValue_fuel h (Nat.le_succ _)

theorem skipValue_skipBlanks (fuel : Nat) (s : List Char) :
    skipValue fuel s = skipValue fuel (skipBlanks s) := by
  cases fuel with
  | zero => rfl
  | succ fuel => rw [skipValue, skipValue, skipWith, skipWith, skipBlanks_skipBlanks]

/-- An item that is passed over, in front of others that are. -/
theorem exists_skipMore {bracket : Char} {s t rest : List Char} (h : skip s = .ok t)
    (hmore : ∃ fuel, skipItems fuel bracket false t = .ok rest) :
    ∃ fuel, skipMore fuel bracket s = .ok rest := by
  obtain ⟨fuel, hitems⟩ := hmore
  have hlength : t.length < s.length := length_lt_of_skipValue h
  refine ⟨2 * s.length + 2, ?_⟩
  show skipValue _ s >>= _ = _
  rw [show skipValue (2 * s.length + 2) s = .ok t from h]
  exact (skipValue_fuel_aux fuel).2 hitems (by omega)

theorem skipItems_close {bracket c : Char} {s cs : List Char} (first : Bool)
    (hs : skipBlanks s = c :: cs) (hc : c = if bracket = '[' then ']' else '\x7d') :
    skipItems 1 bracket first s = .ok cs := by
  simp only [skipItems, hs, if_pos hc]

section Arrays

variable {α : Type} {item : Reader α}

theorem skipBlanks_of_nextItem {first : Bool} {s t : List Char}
    (h : nextItem first s = .ok (false, t)) : skipBlanks s = t := by
  unfold nextItem at h
  split at h
  · cases h
  rename_i hs
  split at h
  · cases h
    exact hs
  split at h
  · cases h
  split at h
  · split at h
    · cases h
    · split at h <;> cases h
  · cases h

/-- The next item is the first of all, or stands behind a comma. -/
theorem exists_skipItems_of_nextItem {first : Bool} {s t rest : List Char}
    (h : nextItem first s = .ok (true, t)) (hmore : ∃ fuel, skipMore fuel '[' t = .ok rest) :
    ∃ fuel, skipItems fuel '[' first s = .ok rest := by
  have hbracket : (if '[' = '[' then ']' else '\x7d') = ']' := rfl
  obtain ⟨fuel, hmore⟩ := hmore
  refine ⟨fuel + 1, ?_⟩
  rw [skipItems_skipBlanks]
  unfold nextItem at h
  split at h
  · cases h
  rename_i c cs hs
  rw [hs, skipItems_cons _ _ _ (isBlank_of_skipBlanks hs), hbracket]
  split at h
  · cases h
  rename_i hclose
  rw [if_neg hclose]
  split at h
  · rename_i hfirst
    cases h
    rw [if_pos hfirst]
    exact hmore
  rename_i hfirst
  rw [if_neg hfirst]
  split at h
  · rename_i hcomma
    rw [if_pos hcomma]
    split at h
    · cases h
    · rename_i d ds hcs
      split at h
      · cases h
      · cases h
        show skipMore fuel '[' cs = _
        rw [skipMore, skipValue_skipBlanks, hcs]
        exact hmore
  · cases h

theorem exists_skipItems_of_items (h : ∀ s, PassedBy (item s) (skip s)) {fuel : Nat} {first : Bool}
    {s t rest : List Char} {xs : List α} (hitems : items item fuel first s = .ok (xs, t))
    (hclose : closeArray t = .ok rest) : ∃ fuel, skipItems fuel '[' first s = .ok rest := by
  induction fuel generalizing first s xs with
  | zero => cases hitems
  | succ fuel ih =>
    obtain ⟨⟨more, u⟩, hnext, hrest⟩ := exists_of_bind_eq_ok hitems
    cases more with
    | false =>
      cases hrest
      have hbracket := (takesMark_closeArray t rest).mp hclose
      rw [← skipBlanks_of_nextItem hnext, skipBlanks_skipBlanks] at hbracket
      exact ⟨1, skipItems_close first hbracket rfl⟩
    | true =>
      obtain ⟨⟨x, v⟩, hx, hrest⟩ := exists_of_bind_eq_ok hrest
      obtain ⟨⟨ys, w⟩, hys, hgiven⟩ := exists_of_bind_eq_ok hrest
      cases hgiven
      exact exists_skipItems_of_nextItem hnext (exists_skipMore (h u x v hx) (ih hys))

theorem exists_skipItems_of_arrayRest (h : ∀ s, PassedBy (item s) (skip s)) {s rest : List Char}
    {xs : List α} (hread : arrayRest item s = .ok (xs, rest)) :
    ∃ fuel, skipItems fuel '[' true s = .ok rest := by
  obtain ⟨⟨ys, t⟩, hitems, hmore⟩ := exists_of_bind_eq_ok hread
  obtain ⟨u, hclose, hgiven⟩ := exists_of_bind_eq_ok hmore
  cases hgiven
  exact exists_skipItems_of_items h hitems hclose

end Arrays

section Objects

variable {σ : Type} {step : σ → String → Reader σ}

/-- A step over a member takes a colon, and then no more than a value. -/
def TakesValue (step : σ → String → Reader σ) : Prop :=
  ∀ a key s b rest, step a key s = .ok (b, rest) →
    ∃ t, colon s = .ok t ∧ skip t = .ok rest

theorem skipKey_quote {front s t u : List Char} {key : String}
    (hfront : ∀ c ∈ front, isBlank c = true) (hkey : stringRest s = .ok (key, t))
    (hcolon : colon t = .ok u) : skipKey (front ++ '"' :: s) = .ok u := by
  have hquote : isBlank '"' = false := rfl
  simp only [skipKey, skipBlanks_append_cons hfront hquote, if_true, stringRest_passed s key t hkey]
  exact hcolon

/-- The next key is the first of all, or stands behind a comma. -/
theorem exists_skipItems_of_nextKey {first : Bool} {s t u v rest : List Char} {key : String}
    (h : nextKey first s = .ok (true, t)) (hkey : stringRest t = .ok (key, u))
    (hcolon : colon u = .ok v) (hmore : ∃ fuel, skipMore fuel '\x7b' v = .ok rest) :
    ∃ fuel, skipItems fuel '\x7b' first s = .ok rest := by
  have hbrace : (if '\x7b' = '[' then ']' else '\x7d') = '\x7d' := rfl
  have hitem {fuel : Nat} {front : List Char} (hfront : ∀ c ∈ front, isBlank c = true) :
      skipItem fuel '\x7b' (front ++ '"' :: t) = skipMore fuel '\x7b' v := by
    show skipKey _ >>= _ = _
    rw [skipKey_quote hfront hkey hcolon]
    rfl
  obtain ⟨fuel, hmore⟩ := hmore
  refine ⟨fuel + 1, ?_⟩
  rw [skipItems_skipBlanks]
  cases first with
  | true =>
    obtain ⟨front, rfl, hfront⟩ := exists_quote_of_nextKey h
    have hnone : ∀ c ∈ ([] : List Char), isBlank c = true := fun _ hmem =>
      absurd hmem List.not_mem_nil
    rw [skipBlanks_append_cons hfront rfl, skipItems_cons _ _ _ rfl, hbrace, if_neg (by decide),
      if_pos rfl]
    exact (hitem hnone).trans hmore
  | false =>
    obtain ⟨back, front, rfl, hback, hfront⟩ := exists_comma_of_nextKey h
    rw [skipBlanks_append_cons hback rfl, skipItems_cons _ _ _ rfl, hbrace, if_neg (by decide),
      if_neg Bool.false_ne_true, if_pos rfl]
    exact (hitem hfront).trans hmore

theorem exists_skipItems_of_foldMembers (h : TakesValue step) {fuel : Nat} {first : Bool} {a b : σ}
    {s t rest : List Char} (hmembers : foldMembers step fuel first a s = .ok (b, t))
    (hclose : closeObject t = .ok rest) : ∃ fuel, skipItems fuel '\x7b' first s = .ok rest := by
  induction fuel generalizing first a s with
  | zero => cases hmembers
  | succ fuel ih =>
    obtain ⟨⟨more, u⟩, hnext, hrest⟩ := exists_of_bind_eq_ok hmembers
    cases more with
    | false =>
      cases hrest
      obtain ⟨back, behind, rfl, rfl, hback⟩ := exists_brace_of_nextKey hnext
      cases hclose
      exact ⟨1, skipItems_close first (skipBlanks_append_cons hback rfl rest) rfl⟩
    | true =>
      obtain ⟨⟨key, v⟩, hkey, hrest⟩ := exists_of_bind_eq_ok hrest
      obtain ⟨⟨c, w⟩, hstep, hrest⟩ := exists_of_bind_eq_ok hrest
      obtain ⟨x, hcolon, hvalue⟩ := h a key v c w hstep
      exact exists_skipItems_of_nextKey hnext hkey hcolon (exists_skipMore hvalue (ih hrest))

theorem exists_skipItems_of_objectRest (h : TakesValue step) {a b : σ} {s rest : List Char}
    (hread : objectRest step a s = .ok (b, rest)) :
    ∃ fuel, skipItems fuel '\x7b' true s = .ok rest := by
  obtain ⟨⟨c, t⟩, hmembers, hmore⟩ := exists_of_bind_eq_ok hread
  obtain ⟨u, hclose, hgiven⟩ := exists_of_bind_eq_ok hmore
  cases hgiven
  exact exists_skipItems_of_foldMembers h hmembers hclose

end Objects

/-! ## Values -/

/-- What stands in brackets is passed over with them. -/
theorem skip_of_skipItems {bracket : Char} {s cs rest : List Char}
    (hs : skipBlanks s = bracket :: cs) (hbracket : bracket = '[' ∨ bracket = '\x7b')
    (h : ∃ fuel, skipItems fuel bracket true cs = .ok rest) : skip s = .ok rest := by
  obtain ⟨fuel, hitems⟩ := h
  have hskip : skipValue (fuel + 1) s = .ok rest := by
    rcases hbracket with rfl | rfl <;> simp [skipValue, skipWith, hs, hitems]
  exact skip_of_skipValue hskip

/-- A value in which nothing is nested. -/
theorem valueWith_none_passed (s : List Char) : PassedBy (valueWith none s) (skip s) := by
  have hword (letters t : List Char) (j : Json) :
      PassedBy (word letters t >>= fun u => .ok (j, u)) (word letters t) := by
    intro x rest h
    obtain ⟨u, hu, hgiven⟩ := exists_of_bind_eq_ok h
    cases hgiven
    exact hu
  show PassedBy _ (skipWith _ s)
  unfold valueWith skipWith
  cases skipBlanks s with
  | nil => exact .error _ _
  | cons c cs =>
    -- The branches stand in the order in which the first character is looked at.
    simp only
    split
    · exact hword _ _ _
    split
    · exact hword _ _ _
    split
    · exact hword _ _ _
    split
    · exact number_passed cs
    split
    · exact number_passed (c :: cs)
    split
    · intro x rest h
      obtain ⟨⟨t, u⟩, hu, hgiven⟩ := exists_of_bind_eq_ok h
      cases hgiven
      exact stringRest_passed cs t u hu
    split
    · exact .error _ _
    split
    · exact .error _ _
    · exact .error _ _

end Json

end Flowline
