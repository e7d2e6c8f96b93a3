import Flowline.Proofs.Json.Writing

/-!
# Reading strings and numbers that were written

`stringRest_quoted` reads a written string. For numbers, `number_append` says that a number which
is all of a text reads the same in front of anything that cannot go on with it, so that it suffices
to look at texts that end with their number.
-/

namespace Flowline

namespace Json

/-! ## Strings -/

theorem hexValue?_hexDigit {n : Nat} (h : n < 16) : hexValue? (hexDigit n) = some n := by
  decide +revert

theorem escaped_control {c : Char} (h : c.toNat < 32) (s : List Char) :
    escaped ('u' :: '0' :: '0' :: hexDigit (c.toNat / 16) :: hexDigit (c.toNat % 16) :: s) =
      .ok (c, s) := by
  have hzero : hexValue? '0' = some 0 := rfl
  have hhigh := hexValue?_hexDigit (n := c.toNat / 16) (by omega)
  have hlow := hexValue?_hexDigit (n := c.toNat % 16) (by omega)
  have htrailing : isTrailing c.toNat = false := by
    simp only [isTrailing, Bool.and_eq_false_iff, decide_eq_false_iff_not]
    omega
  have hleading : isLeading c.toNat = false := by
    simp only [isLeading, Bool.and_eq_false_iff, decide_eq_false_iff_not]
    omega
  have hquad : hexQuad ('0' :: '0' :: hexDigit (c.toNat / 16) :: hexDigit (c.toNat % 16) :: s) =
      .ok (c.toNat, s) := by
    simp [hexQuad, hexQuad?, hzero, hhigh, hlow]
    omega
  have hletter : letterEscape? 'u' = none := rfl
  simp [escaped, hletter, codeEscape, hquad, htrailing, hleading, Char.ofNat_toNat, bind,
    Except.bind]

theorem escaped_letter {e c : Char} (h : letterEscape? e = some c) (s : List Char) :
    escaped (e :: s) = .ok (c, s) := by
  rw [escaped, h]

/-- A character stands for itself, or it is escaped and read back from behind the backslash. -/
theorem escape_cases (c : Char) :
    (∃ es, escape c = '\\' :: es ∧ ∀ s, escaped (es ++ s) = .ok (c, s)) ∨
      (escape c = [c] ∧ c ≠ '"' ∧ c ≠ '\\' ∧ ¬c.toNat < 32) := by
  -- The letters stand in the order of the definition.
  by_cases hquote : c = '"'
  · exact .inl ⟨['"'], by rw [hquote]; rfl, escaped_letter (by rw [hquote]; rfl)⟩
  by_cases hbackslash : c = '\\'
  · exact .inl ⟨['\\'], by rw [hbackslash]; rfl, escaped_letter (by rw [hbackslash]; rfl)⟩
  by_cases hnewline : c = '\n'
  · exact .inl ⟨['n'], by rw [hnewline]; rfl, escaped_letter (by rw [hnewline]; rfl)⟩
  by_cases hreturn : c = '\r'
  · exact .inl ⟨['r'], by rw [hreturn]; rfl, escaped_letter (by rw [hreturn]; rfl)⟩
  by_cases htab : c = '\t'
  · exact .inl ⟨['t'], by rw [htab]; rfl, escaped_letter (by rw [htab]; rfl)⟩
  by_cases hbackspace : c = '\x08'
  · exact .inl ⟨['b'], by rw [hbackspace]; rfl, escaped_letter (by rw [hbackspace]; rfl)⟩
  by_cases hfeed : c = '\x0c'
  · exact .inl ⟨['f'], by rw [hfeed]; rfl, escaped_letter (by rw [hfeed]; rfl)⟩
  have hescape : escape c = if c.toNat < 32 then
      ['\\', 'u', '0', '0', hexDigit (c.toNat / 16), hexDigit (c.toNat % 16)] else [c] := by
    simp only [escape, hquote, hbackslash, hnewline, hreturn, htab, hbackspace, hfeed, if_false]
  by_cases hcontrol : c.toNat < 32
  · rw [if_pos hcontrol] at hescape
    exact .inl ⟨_, hescape, escaped_control hcontrol⟩
  · rw [if_neg hcontrol] at hescape
    exact .inr ⟨hescape, hquote, hbackslash, hcontrol⟩

theorem stringChars_flatMap_escape (cs rest : List Char) {fuel : Nat}
    (h : (cs.flatMap escape).length < fuel) :
    stringChars fuel (cs.flatMap escape ++ '"' :: rest) = .ok (cs, rest) := by
  induction cs generalizing fuel with
  | nil =>
    cases fuel with
    | zero => cases h
    | succ fuel => rfl
  | cons c cs ih =>
    cases fuel with
    | zero => cases h
    | succ fuel =>
      rw [List.flatMap_cons] at h ⊢
      rcases escape_cases c with ⟨es, hescape, hread⟩ | ⟨hescape, hquote, hbackslash, hcontrol⟩
      · rw [hescape, List.cons_append, List.length_cons, List.length_append] at h
        rw [hescape, List.cons_append, List.cons_append, List.append_assoc]
        have hmore := @ih fuel (by omega)
        simp [stringChars, hread, hmore, bind, Except.bind]
      · rw [hescape, List.singleton_append, List.length_cons] at h
        rw [hescape, List.singleton_append, List.cons_append]
        have hmore := @ih fuel (by omega)
        simp [stringChars, hquote, hbackslash, hcontrol, hmore, bind, Except.bind]

/-- A written string is read back from behind its opening quote. -/
theorem stringRest_quoted (s : String) (rest : List Char) :
    stringRest (s.toList.flatMap escape ++ '"' :: rest) = .ok (s, rest) := by
  rw [stringRest, stringChars_flatMap_escape]
  · simp [bind, Except.bind]
  · rw [List.length_append]
    omega

/-! ## Numbers at the end of a text -/

theorem digit?_le {c : Char} {d : Nat} (h : digit? c = some d) : d ≤ maxWhole := by
  unfold digit? at h
  split at h
  · rename_i hc
    obtain rfl := Option.some.inj h
    have hnine : c.toNat ≤ 57 := hc.2
    unfold maxWhole
    omega
  · cases h

/-- Every digit that is taken moves the number up one place. -/
theorem mul_pow_le_ofDigitChars (cs : List Char) (n : Nat) :
    n * Nat.pow 10 cs.length ≤ Nat.ofDigitChars 10 cs n := by
  rw [Nat.ofDigitChars_eq_ofDigitChars_zero, Nat.pow_eq, Nat.mul_comm]
  exact Nat.le_add_right _ _

theorem le_ofDigitChars (cs : List Char) (n : Nat) : n ≤ Nat.ofDigitChars 10 cs n :=
  Nat.le_trans (Nat.le_mul_of_pos_right n (Nat.pow_pos (by decide))) (mul_pow_le_ofDigitChars cs n)

/-- Digits are taken as long as the number they make can be kept exactly. -/
theorem absorb_digits {cs : List Char} (hcs : ∀ c ∈ cs, c.isDigit = true) {n : Nat}
    (h : Nat.ofDigitChars 10 cs n ≤ maxWhole) :
    absorb n cs = (Nat.ofDigitChars 10 cs n, cs.length, []) := by
  induction cs generalizing n with
  | nil => rfl
  | cons c cs ih =>
    rw [List.forall_mem_cons] at hcs
    rw [Nat.ofDigitChars_cons] at h ⊢
    have hle := le_ofDigitChars cs (10 * n + (c.toNat - '0'.toNat))
    have hnext : n * 10 + (c.toNat - '0'.toNat) = 10 * n + (c.toNat - '0'.toNat) := by omega
    simp only [absorb, digit?_eq, hcs.1, if_true, hnext]
    rw [if_pos (Nat.le_trans hle h), ih hcs.2 h]
    rfl

/-- A positive number has no zero in front. -/
theorem toDigits_eq_cons_of_pos {n : Nat} (hn : 0 < n) :
    ∃ c cs, Nat.toDigits 10 n = c :: cs ∧ c.toNat - '0'.toNat ≠ 0 := by
  induction n using Nat.strongRecOn with
  | ind n ih =>
    by_cases h : n < 10
    · have hdigit : ∀ m < 10, 0 < m → m.digitChar.toNat - '0'.toNat ≠ 0 := by decide
      exact ⟨n.digitChar, [], Nat.toDigits_of_lt_base h, hdigit n h hn⟩
    · obtain ⟨c, cs, hdigits, hc⟩ := ih (n / 10) (by omega) (by omega)
      refine ⟨c, cs ++ [(n % 10).digitChar], ?_, hc⟩
      rw [Nat.toDigits_of_base_le (by decide) (by omega), hdigits]
      rfl

theorem afterWhole_nil (negative : Bool) (n : Nat) :
    afterWhole negative n [] = .ok (whole negative n, []) := rfl

/-- What follows a first digit that is not zero. -/
theorem number_cons (negative : Bool) {c : Char} {d : Nat} (hc : digit? c = some d) (hd : d ≠ 0)
    (cs : List Char) :
    number negative (c :: cs) = afterWhole negative (absorb d cs).1 (absorb d cs).2.2 := by
  unfold number
  cases d with
  | zero => exact absurd rfl hd
  | succ d => simp only [hc]

/-- A whole number that can be kept exactly is read from its digits. -/
theorem number_toDigits (negative : Bool) {n : Nat} (h : n ≤ maxWhole) :
    number negative (Nat.toDigits 10 n) = .ok (whole negative n, []) := by
  rcases Nat.eq_zero_or_pos n with rfl | hn
  · rfl
  · obtain ⟨c, cs, hdigits, hc⟩ := toDigits_eq_cons_of_pos hn
    have hall : ∀ d ∈ c :: cs, d.isDigit = true := by
      intro d hd
      rw [← hdigits] at hd
      exact Nat.isDigit_of_mem_toDigits (by decide) (by decide) hd
    rw [List.forall_mem_cons] at hall
    have hvalue : Nat.ofDigitChars 10 cs (c.toNat - '0'.toNat) = n := by
      have hwhole := Nat.ofDigitChars_ten_toDigits (n := n)
      rwa [hdigits, Nat.ofDigitChars_cons, Nat.mul_zero, Nat.zero_add] at hwhole
    have habsorb : absorb (c.toNat - '0'.toNat) cs = (n, cs.length, []) := by
      rw [absorb_digits hall.2 (by omega), hvalue]
    have hdigit : digit? c = some (c.toNat - '0'.toNat) := by
      rw [digit?_eq, if_pos hall.1]
    rw [hdigits, number_cons negative hdigit hc, habsorb, afterWhole_nil]

/-! ## Numbers in front of other text -/

/-- A character that a number does not go on with. -/
def endsNumber (c : Char) : Bool := !(c.isDigit || c == '.' || isExponentMark c)

/-- A text that does not go on with the number in front of it. -/
def Stops (rest : List Char) : Prop := ∀ c ∈ rest.head?, endsNumber c = true

/-- A text that does not go on with the digits in front of it. -/
def EndsDigits (rest : List Char) : Prop := ∀ c ∈ rest.head?, c.isDigit = false

theorem stops_nil : Stops [] := nofun

theorem stops_cons {c : Char} (h : endsNumber c = true) (cs : List Char) : Stops (c :: cs) := by
  intro d hd
  obtain rfl := Option.some.inj hd
  exact h

section Append

variable {rest : List Char}

theorem Stops.cons {c : Char} {cs : List Char} (h : Stops (c :: cs)) :
    c.isDigit = false ∧ c ≠ '.' ∧ isExponentMark c = false := by
  have hc := h c rfl
  simpa [endsNumber, and_assoc] using hc

theorem Stops.endsDigits (h : Stops rest) : EndsDigits rest := by
  cases rest with
  | nil => nofun
  | cons c cs =>
    intro d hd
    obtain rfl := Option.some.inj hd
    exact h.cons.1

theorem dropWhile_append (h : EndsDigits rest) (s : List Char) :
    (s ++ rest).dropWhile isDigit = s.dropWhile isDigit ++ rest := by
  induction s with
  | nil =>
    cases rest with
    | nil => rfl
    | cons c cs =>
      rw [List.nil_append, List.dropWhile_cons, isDigit_eq, h c rfl]
      rfl
  | cons c s ih =>
    rw [List.cons_append, List.dropWhile_cons, List.dropWhile_cons, ih]
    split <;> rfl

theorem absorb_append (h : EndsDigits rest) (n : Nat) (s : List Char) :
    absorb n (s ++ rest) = ((absorb n s).1, (absorb n s).2.1, (absorb n s).2.2 ++ rest) := by
  induction s generalizing n with
  | nil =>
    cases rest with
    | nil => rfl
    | cons c cs =>
      have hc : digit? c = none := by
        rw [digit?_eq, h c rfl]
        rfl
      simp only [List.nil_append, absorb, hc]
  | cons c s ih =>
    simp only [List.cons_append, absorb]
    split
    · split
      · rw [ih]
      · rfl
    · rfl

theorem exponentDigits_append (h : EndsDigits rest) (n : Nat) (s : List Char) :
    exponentDigits n (s ++ rest) = ((exponentDigits n s).1, (exponentDigits n s).2 ++ rest) := by
  induction s generalizing n with
  | nil =>
    cases rest with
    | nil => rfl
    | cons c cs =>
      have hc : digit? c = none := by
        rw [digit?_eq, h c rfl]
        rfl
      simp only [List.nil_append, exponentDigits, hc]
  | cons c s ih =>
    simp only [List.cons_append, exponentDigits]
    split
    · split
      · rw [ih]
      · rfl
    · rfl

/-- A reader that reads the same in front of other text. -/
def GoesOn (rest : List Char) (read : Reader Json) (s : List Char) : Prop :=
  ∀ v t, read s = .ok (v, t) → read (s ++ rest) = .ok (v, t ++ rest)

theorem decimal_append (rest : List Char) (negative : Bool) (digits : Nat) (exponent : Int)
    (s : List Char) : GoesOn rest (decimal negative digits exponent) s := by
  intro v t
  unfold decimal
  split
  · intro h
    cases h
    rfl
  · intro h
    cases h

theorem unsignedExponent_append (hrest : Stops rest) (negative : Bool) (digits : Nat) (shift : Int)
    (below : Bool) (s : List Char) :
    GoesOn rest (unsignedExponent negative digits shift below) s := by
  intro v t h
  cases s with
  | nil => cases h
  | cons c cs =>
    simp only [List.cons_append, unsignedExponent] at h ⊢
    cases hc : digit? c with
    | none =>
      simp only [hc] at h
      cases h
    | some d =>
      simp only [hc] at h ⊢
      rw [exponentDigits_append hrest.endsDigits]
      rcases hdigits : exponentDigits d cs with ⟨e, cs'⟩
      rw [hdigits] at h
      cases e with
      | some e => exact decimal_append rest _ _ _ _ _ _ h
      | none =>
        simp only at h ⊢
        split at h
        · cases h
        · rename_i hfits
          rw [if_neg hfits, dropWhile_append hrest.endsDigits]
          cases h
          rfl

theorem exponent_append (hrest : Stops rest) (negative : Bool) (digits : Nat) (shift : Int)
    (s : List Char) : GoesOn rest (exponent negative digits shift) s := by
  intro v t h
  cases s with
  | nil => cases h
  | cons c cs =>
    rw [List.cons_append]
    by_cases hplus : c = '+'
    · subst hplus
      exact unsignedExponent_append hrest _ _ _ _ _ _ _ h
    by_cases hminus : c = '-'
    · subst hminus
      exact unsignedExponent_append hrest _ _ _ _ _ _ _ h
    · have hunsigned (ds : List Char) : exponent negative digits shift (c :: ds) =
          unsignedExponent negative digits shift false (c :: ds) := by
        unfold exponent
        split <;> simp_all
      rw [hunsigned] at h ⊢
      exact unsignedExponent_append hrest _ _ _ _ (c :: cs) _ _ h

theorem fraction_append (hrest : Stops rest) (negative : Bool) (digits : Nat) (shift : Int)
    (s : List Char) : GoesOn rest (fraction negative digits shift) s := by
  intro v t h
  unfold fraction at h ⊢
  rw [absorb_append hrest.endsDigits]
  generalize absorb digits s = taken at h ⊢
  obtain ⟨digits', taken, s'⟩ := taken
  simp only [dropWhile_append hrest.endsDigits] at h ⊢
  generalize s'.dropWhile isDigit = behind at h ⊢
  cases behind with
  | nil =>
    simp only at h
    split at h
    · cases h
    · rename_i hs
      have hvalue := decimal_append rest _ _ _ _ _ _ h
      cases rest with
      | nil =>
        simp only [List.append_nil, if_neg hs] at hvalue ⊢
        exact hvalue
      | cons c cs =>
        have hfull : s ++ c :: cs ≠ c :: cs := fun heq => hs (List.append_left_eq_self.mp heq)
        simp only [List.nil_append, if_neg hfull, hrest.cons.2.2] at hvalue ⊢
        exact hvalue
  | cons c cs =>
    simp only [List.cons_append] at h ⊢
    split at h
    · cases h
    · rename_i hs
      have hfull : s ++ rest ≠ c :: (cs ++ rest) := fun heq => hs (List.append_cancel_right heq)
      rw [if_neg hfull]
      split at h
      · rename_i hmark
        rw [if_pos hmark]
        exact exponent_append hrest _ _ _ _ _ _ h
      · rename_i hmark
        rw [if_neg hmark]
        exact decimal_append rest _ _ _ _ _ _ h

theorem afterWhole_of_nil {s : List Char} (hs : s.dropWhile isDigit = []) (negative : Bool)
    (digits : Nat) :
    afterWhole negative digits s =
      if s.length = 0 then .ok (whole negative digits, [])
      else decimal negative digits s.length [] := by
  simp only [afterWhole, hs, List.length_nil, Nat.sub_zero]

theorem afterWhole_of_cons {s cs : List Char} {c : Char} (hs : s.dropWhile isDigit = c :: cs)
    (hc : c ≠ '.') (negative : Bool) (digits : Nat) :
    afterWhole negative digits s =
      let dropped := s.length - (c :: cs).length
      if isExponentMark c then exponent negative digits dropped cs
      else if dropped = 0 then .ok (whole negative digits, c :: cs)
      else decimal negative digits dropped (c :: cs) := by
  simp only [afterWhole, hs]

/-- Digits up to the end of the text, and then a text that does not go on with them. -/
theorem afterWhole_append_of_nil (hrest : Stops rest) (negative : Bool) (digits : Nat)
    {s : List Char} (hs : s.dropWhile isDigit = []) {v : Json} {t : List Char}
    (h : afterWhole negative digits s = .ok (v, t)) :
    afterWhole negative digits (s ++ rest) = .ok (v, t ++ rest) := by
  have hfull := dropWhile_append hrest.endsDigits s
  rw [afterWhole_of_nil hs] at h
  rw [hs, List.nil_append] at hfull
  have hvalue : (if s.length = 0 then .ok (whole negative digits, rest)
      else decimal negative digits s.length rest) = .ok (v, t ++ rest) := by
    split at h
    · rename_i hlength
      cases h
      rw [if_pos hlength, List.nil_append]
    · rename_i hlength
      rw [if_neg hlength]
      exact decimal_append rest _ _ _ _ _ _ h
  cases rest with
  | nil =>
    rw [List.append_nil, afterWhole_of_nil hs]
    exact hvalue
  | cons c cs =>
    obtain ⟨-, hpoint, hmark⟩ := hrest.cons
    have hdropped : (s ++ c :: cs).length - (c :: cs).length = s.length := by
      rw [List.length_append, Nat.add_sub_cancel]
    rw [afterWhole_of_cons hfull hpoint, hdropped]
    simp only [hmark, Bool.false_eq_true, if_false]
    exact hvalue

theorem afterWhole_append (hrest : Stops rest) (negative : Bool) (digits : Nat) (s : List Char) :
    GoesOn rest (afterWhole negative digits) s := by
  intro v t h
  cases hs : s.dropWhile isDigit with
  | nil => exact afterWhole_append_of_nil hrest negative digits hs h
  | cons c cs =>
    have hfull := dropWhile_append hrest.endsDigits s
    rw [hs, List.cons_append] at hfull
    have hdropped : (s ++ rest).length - (c :: (cs ++ rest)).length =
        s.length - (c :: cs).length := by
      simp only [List.length_cons, List.length_append]
      omega
    by_cases hpoint : c = '.'
    · subst hpoint
      simp only [afterWhole, hs] at h
      simp only [afterWhole, hfull, hdropped]
      exact fraction_append hrest _ _ _ _ _ _ h
    · rw [afterWhole_of_cons hs hpoint] at h
      rw [afterWhole_of_cons hfull hpoint, hdropped]
      simp only at h ⊢
      split at h
      · rename_i hmark
        rw [if_pos hmark]
        exact exponent_append hrest _ _ _ _ _ _ h
      · rename_i hmark
        rw [if_neg hmark]
        split at h
        · rename_i hnone
          rw [if_pos hnone]
          cases h
          rfl
        · rename_i hsome
          rw [if_neg hsome]
          exact decimal_append rest _ _ _ _ _ _ h

/-- A number reads the same in front of a text that does not go on with it. -/
theorem number_append (hrest : Stops rest) (negative : Bool) (s : List Char) :
    GoesOn rest (number negative) s := by
  intro v t h
  cases s with
  | nil => cases h
  | cons c cs =>
    cases hc : digit? c with
    | none =>
      simp only [number, hc] at h
      cases h
    | some d =>
      by_cases hd : d = 0
      · subst hd
        cases cs with
        | nil =>
          have hvalue := afterWhole_append hrest negative 0 [] v t (by simpa [number, hc] using h)
          cases rest with
          | nil =>
            rw [List.append_nil, List.append_nil]
            exact h
          | cons e es => simpa [number, hc, hrest.cons.1] using hvalue
        | cons e es =>
          by_cases he : e.isDigit = true
          · simp [number, hc, he] at h
          · have hvalue := afterWhole_append hrest negative 0 (e :: es) v t
              (by simpa [number, hc, he] using h)
            simpa [number, hc, he] using hvalue
      · rw [number_cons negative hc hd] at h
        rw [List.cons_append, number_cons negative hc hd, absorb_append hrest.endsDigits]
        exact afterWhole_append hrest _ _ _ _ _ h

end Append

end Json

end Flowline
