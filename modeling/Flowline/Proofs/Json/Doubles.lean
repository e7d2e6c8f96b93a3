import Flowline.Proofs.Binary64.Decimals
import Flowline.Proofs.Json.Scanning

/-!
# Reading the text of a double

The text of a positive decimal is read as a number, and all of it is taken. What the number is
depends on two things that the reader does: it takes only as many digits as it can keep, and it
counts the exponent from there. `number_text` says which digits and which exponent that are.
-/

namespace Flowline

namespace Json

/-! ## Runs of digits -/

/-- A text of decimal digits. -/
def AllDigits (s : List Char) : Prop := ∀ c ∈ s, c.isDigit = true

theorem allDigits_toDigits (n : Nat) : AllDigits (Nat.toDigits 10 n) :=
  fun _ hc => Nat.isDigit_of_mem_toDigits (by decide) (by decide) hc

theorem dropWhile_allDigits {s : List Char} (h : AllDigits s) : s.dropWhile isDigit = [] := by
  induction s with
  | nil => rfl
  | cons c s ih =>
    obtain ⟨hc, hs⟩ := List.forall_mem_cons.mp h
    rw [List.dropWhile_cons, isDigit_eq, hc]
    exact ih hs

theorem dropWhile_allDigits_cons {s : List Char} (h : AllDigits s) {c : Char}
    (hc : c.isDigit = false) (cs : List Char) :
    (s ++ c :: cs).dropWhile isDigit = c :: cs := by
  have hends : EndsDigits (c :: cs) := by
    intro d hd
    obtain rfl := Option.some.inj hd
    exact hc
  rw [dropWhile_append hends, dropWhile_allDigits h, List.nil_append]

/-- As many digits are taken as fit. -/
theorem absorb_allDigits {s : List Char} (h : AllDigits s) {n : Nat} (hn : n ≤ maxWhole) :
    ∃ taken ≤ s.length, Nat.ofDigitChars 10 (s.take taken) n ≤ maxWhole ∧
      absorb n s = (Nat.ofDigitChars 10 (s.take taken) n, taken, s.drop taken) := by
  induction s generalizing n with
  | nil => exact ⟨0, Nat.le_refl 0, hn, rfl⟩
  | cons c s ih =>
    obtain ⟨hc, hs⟩ := List.forall_mem_cons.mp h
    simp only [absorb, digit?_eq, hc, if_true]
    split
    · rename_i hfits
      obtain ⟨taken, hlength, hvalue, habsorb⟩ := ih hs hfits
      refine ⟨taken + 1, Nat.succ_le_succ hlength, ?_, ?_⟩
      · rwa [List.take_succ_cons, Nat.ofDigitChars_cons, Nat.mul_comm 10]
      · rw [habsorb, List.take_succ_cons, Nat.ofDigitChars_cons, Nat.mul_comm 10]
        rfl
    · exact ⟨0, Nat.zero_le _, hn, rfl⟩

/-! ## Numbers with a point -/

variable {negative : Bool} {digits : Nat}

theorem afterWhole_point {s : List Char} (h : AllDigits s) (cs : List Char) :
    afterWhole negative digits (s ++ '.' :: cs) = fraction negative digits s.length cs := by
  have hdrop : (s ++ '.' :: cs).dropWhile isDigit = '.' :: cs := dropWhile_allDigits_cons h rfl cs
  have hdropped : (s ++ '.' :: cs).length - ('.' :: cs).length = s.length := by
    rw [List.length_append, Nat.add_sub_cancel]
  simp only [afterWhole, hdrop, hdropped]

theorem fraction_allDigits (negative : Bool) {s : List Char} (h : AllDigits s) (hs : s ≠ [])
    (shift : Int) (hdigits : digits ≤ maxWhole) :
    ∃ taken ≤ s.length, Nat.ofDigitChars 10 (s.take taken) digits ≤ maxWhole ∧
      fraction negative digits shift s =
        decimal negative (Nat.ofDigitChars 10 (s.take taken) digits) (shift - taken) [] := by
  obtain ⟨taken, hlength, hvalue, habsorb⟩ := absorb_allDigits h hdigits
  have hdrop : (s.drop taken).dropWhile isDigit = [] :=
    dropWhile_allDigits fun c hc => h c (List.mem_of_mem_drop hc)
  refine ⟨taken, hlength, hvalue, ?_⟩
  simp only [fraction, habsorb, hdrop, if_neg hs]

theorem fraction_mark (negative : Bool) {s : List Char} (h : AllDigits s) (hs : s ≠ [])
    (shift : Int) (hdigits : digits ≤ maxWhole) (cs : List Char) :
    ∃ taken ≤ s.length, Nat.ofDigitChars 10 (s.take taken) digits ≤ maxWhole ∧
      fraction negative digits shift (s ++ 'e' :: cs) =
        exponent negative (Nat.ofDigitChars 10 (s.take taken) digits) (shift - taken) cs := by
  obtain ⟨taken, hlength, hvalue, habsorb⟩ := absorb_allDigits h hdigits
  have hends : EndsDigits ('e' :: cs) := by
    intro d hd
    obtain rfl := Option.some.inj hd
    rfl
  have hdrop : (s.drop taken ++ 'e' :: cs).dropWhile isDigit = 'e' :: cs :=
    dropWhile_allDigits_cons (fun c hc => h c (List.mem_of_mem_drop hc)) rfl cs
  have hfull : s ++ 'e' :: cs ≠ 'e' :: cs := fun heq => hs (List.append_left_eq_self.mp heq)
  refine ⟨taken, hlength, hvalue, ?_⟩
  simp only [fraction, absorb_append hends, habsorb, hdrop, if_neg hfull]
  rfl

/-- A number with a point and no exponent. Its whole part does not begin with a zero, unless it is
one. -/
theorem number_point (negative : Bool) {c : Char} {whole behind : List Char}
    (hwhole : AllDigits (c :: whole))
    (hzero : c.toNat - '0'.toNat = 0 → whole = []) (hbehind : AllDigits behind)
    (hne : behind ≠ []) :
    ∃ digits exponent, digits ≤ maxWhole ∧ exponent ≤ (whole.length : Int) ∧
      number negative (c :: (whole ++ '.' :: behind)) = decimal negative digits exponent [] := by
  obtain ⟨hc, hcs⟩ := List.forall_mem_cons.mp hwhole
  have hdigit : digit? c = some (c.toNat - '0'.toNat) := by
    rw [digit?_eq, if_pos hc]
  by_cases hfirst : c.toNat - '0'.toNat = 0
  · obtain rfl := hzero hfirst
    obtain ⟨taken, -, hvalue, hfraction⟩ :=
      fraction_allDigits negative hbehind hne 0 (Nat.zero_le maxWhole)
    refine ⟨_, 0 - taken, hvalue, by omega, ?_⟩
    rw [hfirst] at hdigit
    rw [← hfraction]
    simp [number, hdigit, afterWhole]
  · obtain ⟨skipped, hskipped, hvalue, habsorb⟩ := absorb_allDigits hcs (digit?_le hdigit)
    have hends : EndsDigits ('.' :: behind) := by
      intro d hd
      obtain rfl := Option.some.inj hd
      rfl
    obtain ⟨taken, -, hvalue', hfraction⟩ := fraction_allDigits negative hbehind hne
      ((whole.drop skipped).length : Nat) hvalue
    refine ⟨_, (whole.drop skipped).length - taken, hvalue', ?_, ?_⟩
    · rw [List.length_drop]
      omega
    · rw [number_cons negative hdigit hfirst, absorb_append hends, habsorb, ← hfraction]
      exact afterWhole_point (fun d hd => hcs d (List.mem_of_mem_drop hd)) behind

/-! ## Numbers with an exponent -/

/-- A number with an exponent, whose digits do not begin with a zero. -/
theorem number_mark (negative : Bool) {c : Char} {cs : List Char}
    (h : AllDigits (c :: cs))
    (hzero : c.toNat - '0'.toNat ≠ 0) (s : List Char) :
    ∃ taken ≤ cs.length, Nat.ofDigitChars 10 ((c :: cs).take (taken + 1)) 0 ≤ maxWhole ∧
      number negative ((if (c :: cs).length = 1 then c :: cs
          else Binary64.pointAfter 1 (c :: cs)) ++ 'e' :: s) =
        exponent negative (Nat.ofDigitChars 10 ((c :: cs).take (taken + 1)) 0) (-taken) s := by
  obtain ⟨hc, hcs⟩ := List.forall_mem_cons.mp h
  have hdigit : digit? c = some (c.toNat - '0'.toNat) := by
    rw [digit?_eq, if_pos hc]
  have hle := digit?_le hdigit
  have hfirst (ds : List Char) :
      Nat.ofDigitChars 10 (c :: ds) 0 = Nat.ofDigitChars 10 ds (c.toNat - '0'.toNat) := by
    rw [Nat.ofDigitChars_cons, Nat.mul_zero, Nat.zero_add]
  cases cs with
  | nil =>
    have hmark : (absorb (c.toNat - '0'.toNat) ('e' :: s)) = (c.toNat - '0'.toNat, 0, 'e' :: s) :=
      rfl
    have hdrop : ('e' :: s).dropWhile isDigit = 'e' :: s := rfl
    have hsingle : [c].length = 1 := rfl
    refine ⟨0, Nat.le_refl 0, by rwa [List.take_succ_cons, hfirst], ?_⟩
    rw [List.take_succ_cons, hfirst, if_pos hsingle, List.singleton_append,
      number_cons negative hdigit hzero, hmark, afterWhole_of_cons hdrop (by decide), Nat.sub_self]
    rfl
  | cons d ds =>
    obtain ⟨taken, hlength, hvalue, hfraction⟩ := fraction_mark negative hcs
      (List.cons_ne_nil d ds) 0 hle s
    have hpoint : Binary64.pointAfter 1 (c :: d :: ds) = c :: '.' :: d :: ds := rfl
    refine ⟨taken, hlength, by rwa [List.take_succ_cons, hfirst], ?_⟩
    rw [List.take_succ_cons, hfirst, ← Int.zero_sub, ← hfraction, if_neg (by simp), hpoint,
      List.cons_append, number_cons negative hdigit hzero]
    exact afterWhole_point (s := []) (fun _ hmem => absurd hmem List.not_mem_nil)
      (d :: ds ++ 'e' :: s)

/-! ## The text of a decimal -/

theorem allDigits_zeros (n : Nat) : AllDigits (List.replicate n '0') := by
  intro c hc
  rw [List.eq_of_mem_replicate hc]
  rfl

theorem AllDigits.append {s t : List Char} (hs : AllDigits s) (ht : AllDigits t) :
    AllDigits (s ++ t) :=
  fun c hc => (List.mem_append.mp hc).elim (hs c) (ht c)

/-- A decimal that is written without exponent: the exponent that counts cannot be large. -/
theorem number_plain (negative : Bool) {d : Binary64.Decimal} (hd : 0 < d.digits)
    (hmark : ¬(d.exponent + (Nat.toDigits 10 d.digits).length - 1 < -5 ∨
      15 < d.exponent + (Nat.toDigits 10 d.digits).length - 1)) :
    ∃ digits exponent, digits ≤ maxWhole ∧ exponent ≤ 15 ∧
      number negative d.text = decimal negative digits exponent [] := by
  have hall := allDigits_toDigits d.digits
  obtain ⟨c, cs, hdigits, hc⟩ := toDigits_eq_cons_of_pos hd
  rw [hdigits] at hall hmark
  have hlength : (c :: cs).length = cs.length + 1 := rfl
  unfold Binary64.Decimal.text
  simp only [hdigits, if_neg hmark]
  generalize hlead : d.exponent + ((c :: cs).length : Int) - 1 = lead at hmark ⊢
  -- What stands in front of the point, and what stands behind it.
  have hpoint {first : Char} (whole behind : List Char) (hlast : whole.length ≤ 15)
      (hwhole : AllDigits (first :: whole)) (hzero : first.toNat - '0'.toNat = 0 → whole = [])
      (hbehind : AllDigits behind) (hne : behind ≠ []) :
      ∃ digits exponent, digits ≤ maxWhole ∧ exponent ≤ 15 ∧
        number negative (first :: (whole ++ '.' :: behind)) =
          decimal negative digits exponent [] := by
    obtain ⟨digits, exponent, hdigits, hexponent, hnumber⟩ :=
      number_point negative hwhole hzero hbehind hne
    exact ⟨digits, exponent, hdigits, by omega, hnumber⟩
  obtain ⟨hfirst, hrest⟩ := List.forall_mem_cons.mp hall
  by_cases hbelow : lead < 0
  · rw [if_pos hbelow]
    exact hpoint [] _ (Nat.zero_le 15) (allDigits_zeros 1) (fun _ => rfl)
      ((allDigits_zeros _).append hall)
      (List.append_ne_nil_of_right_ne_nil _ (List.cons_ne_nil c cs))
  rw [if_neg hbelow]
  by_cases hwhole : 0 ≤ d.exponent
  · rw [if_pos hwhole, List.append_assoc, List.cons_append, ← List.append_assoc]
    refine hpoint _ _ ?_ ?_ (fun h => absurd h hc) (allDigits_zeros 1) (List.cons_ne_nil _ _)
    · rw [List.length_append, List.length_replicate]
      omega
    · exact hall.append (allDigits_zeros _)
  · rw [if_neg hwhole]
    refine hpoint (cs.take lead.natAbs) (cs.drop lead.natAbs) ?_ ?_
      (fun h => absurd h hc) ?_ ?_
    · rw [List.length_take]
      omega
    · exact List.forall_mem_cons.mpr ⟨hfirst, fun e he => hrest e (List.mem_of_mem_take he)⟩
    · exact fun e he => hrest e (List.mem_of_mem_drop he)
    · rw [ne_eq, List.drop_eq_nil_iff]
      omega

/-- What is read for the text of a positive decimal. In a text without exponent, the exponent that
counts cannot be large; in a text with one, the first digits are kept. -/
theorem number_text (negative : Bool) {d : Binary64.Decimal} (hd : 0 < d.digits) :
    (∃ digits exponent, digits ≤ maxWhole ∧ exponent ≤ 15 ∧
      number negative d.text = decimal negative digits exponent []) ∨
    ∃ taken, ∃ lead : Int,
      taken < (Nat.toDigits 10 d.digits).length ∧
      lead = d.exponent + (Nat.toDigits 10 d.digits).length - 1 ∧
      Nat.ofDigitChars 10 ((Nat.toDigits 10 d.digits).take (taken + 1)) 0 ≤ maxWhole ∧
      number negative d.text =
        exponent negative (Nat.ofDigitChars 10 ((Nat.toDigits 10 d.digits).take (taken + 1)) 0)
          (-taken) ((if lead < 0 then '-' else '+') :: Nat.toDigits 10 lead.natAbs) := by
  by_cases hmark : d.exponent + (Nat.toDigits 10 d.digits).length - 1 < -5 ∨
      15 < d.exponent + (Nat.toDigits 10 d.digits).length - 1
  · have hall := allDigits_toDigits d.digits
    obtain ⟨c, cs, hdigits, hc⟩ := toDigits_eq_cons_of_pos hd
    unfold Binary64.Decimal.text
    simp only [if_pos hmark]
    rw [hdigits] at hall ⊢
    obtain ⟨taken, htaken, hvalue, hnumber⟩ := number_mark negative hall hc _
    exact .inr ⟨taken, _, Nat.lt_succ_of_le htaken, rfl, hvalue, hnumber⟩
  · exact .inl (number_plain negative hd hmark)

/-! ## The end of the number -/

theorem decimal_nil {digits : Nat} {exponent : Int} {v : Json} {t : List Char}
    (h : decimal negative digits exponent [] = .ok (v, t)) : (∃ x, v = .double x) ∧ t = [] := by
  unfold decimal at h
  split at h
  · cases h
    exact ⟨⟨_, rfl⟩, rfl⟩
  · cases h

theorem exponentDigits_allDigits {s : List Char} (h : AllDigits s) (n : Nat) :
    AllDigits (exponentDigits n s).2 ∧
      ((exponentDigits n s).1.isSome → (exponentDigits n s).2 = []) := by
  induction s generalizing n with
  | nil => exact ⟨h, fun _ => rfl⟩
  | cons c s ih =>
    obtain ⟨hc, hs⟩ := List.forall_mem_cons.mp h
    simp only [exponentDigits, digit?_eq, hc, if_true]
    split
    · exact ih hs _
    · exact ⟨hs, fun hsome => absurd hsome Bool.false_ne_true⟩

theorem unsignedExponent_allDigits {s : List Char} (h : AllDigits s) {digits : Nat} {shift : Int}
    {below : Bool} {v : Json} {t : List Char}
    (hread : unsignedExponent negative digits shift below s = .ok (v, t)) :
    (∃ x, v = .double x) ∧ t = [] := by
  cases s with
  | nil => cases hread
  | cons c s =>
    obtain ⟨hc, hs⟩ := List.forall_mem_cons.mp h
    obtain ⟨hbehind, hend⟩ := exponentDigits_allDigits hs (c.toNat - '0'.toNat)
    simp only [unsignedExponent, digit?_eq, hc, if_true] at hread
    rcases hdigits : exponentDigits (c.toNat - '0'.toNat) s with ⟨e, behind⟩
    rw [hdigits] at hbehind hend hread
    cases e with
    | some e =>
      obtain rfl : behind = [] := hend rfl
      exact decimal_nil hread
    | none =>
      simp only at hread
      split at hread
      · cases hread
      · rw [dropWhile_allDigits hbehind] at hread
        cases hread
        exact ⟨⟨_, rfl⟩, rfl⟩

/-- If the text of a positive decimal is read at all, it is read as a double, to its end. -/
theorem number_text_end {d : Binary64.Decimal} (hd : 0 < d.digits) {v : Json} {t : List Char}
    (h : number negative d.text = .ok (v, t)) : (∃ x, v = .double x) ∧ t = [] := by
  rcases number_text negative hd with
    ⟨digits, exponent, -, -, hnumber⟩ | ⟨taken, lead, -, -, -, hnumber⟩
  · exact decimal_nil (hnumber ▸ h)
  · rw [hnumber] at h
    split at h
    · exact unsignedExponent_allDigits (allDigits_toDigits _) h
    · exact unsignedExponent_allDigits (allDigits_toDigits _) h

end Json

namespace Binary64

theorem number_magnitudeText_end {d : Binary64} {v : Json} {t : List Char}
    (h : Json.number d.negative d.magnitudeText = .ok (v, t)) : (∃ x, v = .double x) ∧ t = [] := by
  unfold magnitudeText at h
  split at h
  · have hzero : Json.number d.negative ['0', '.', '0'] =
        Json.decimal d.negative 0 (0 - 1) [] := rfl
    exact Json.decimal_nil (hzero ▸ h)
  · rename_i hm
    exact Json.number_text_end (shortest_digits_pos (Nat.pos_of_ne_zero hm)) h

end Binary64

end Flowline
