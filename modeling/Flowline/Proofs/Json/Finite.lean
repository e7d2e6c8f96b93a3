import Flowline.Proofs.Binary64.Overflow
import Flowline.Proofs.Json.RoundTrip

/-!
# Every double can be read

The text of a finite double is never out of range: below the second largest double no decimal is,
and the texts of the two largest doubles are read one by one.
-/

namespace Flowline

namespace Json

/-! ## Exponents -/

theorem decimal_of_isSome {digits : Nat} {exponent : Int}
    (h : (Binary64.ofDecimal? digits exponent).isSome) (negative : Bool) :
    ∃ r, decimal negative digits exponent [] = .ok r := by
  obtain ⟨m, hm⟩ := Option.isSome_iff_exists.mp h
  exact ⟨(.double ⟨negative, m⟩, []), by simp only [decimal, hm]⟩

theorem exponentDigits_digits {s : List Char} (h : AllDigits s) {n : Nat}
    (hfits : Nat.ofDigitChars 10 s n ≤ maxExponent) :
    exponentDigits n s = (some (Nat.ofDigitChars 10 s n), []) := by
  induction s generalizing n with
  | nil => rfl
  | cons c s ih =>
    obtain ⟨hc, hs⟩ := List.forall_mem_cons.mp h
    rw [Nat.ofDigitChars_cons, Nat.mul_comm] at hfits ⊢
    simp only [exponentDigits, digit?_eq, hc, if_true]
    rw [if_pos (Nat.le_trans (le_ofDigitChars s _) hfits), ih hs hfits]

/-- An exponent that can be kept is read from its digits. -/
theorem unsignedExponent_toDigits {n : Nat} (hn : n ≤ maxExponent) (negative : Bool)
    (digits : Nat) (shift : Int) (below : Bool) :
    unsignedExponent negative digits shift below (Nat.toDigits 10 n) =
      decimal negative digits (if below then shift - n else shift + n) [] := by
  obtain ⟨c, cs, hdigits, hc⟩ := toDigits_eq_cons n
  have hall : AllDigits (c :: cs) := hdigits ▸ allDigits_toDigits n
  have hvalue : Nat.ofDigitChars 10 cs (c.toNat - '0'.toNat) = n := by
    have hwhole := Nat.ofDigitChars_ten_toDigits (n := n)
    rwa [hdigits, Nat.ofDigitChars_cons, Nat.mul_zero, Nat.zero_add] at hwhole
  have hexponent := exponentDigits_digits (List.forall_mem_cons.mp hall).2
    (n := c.toNat - '0'.toNat) (by rwa [hvalue])
  rw [hvalue] at hexponent
  rw [hdigits]
  simp only [unsignedExponent, digit?_eq, hc, if_true, hexponent]

/-- A negative exponent can always be read: if it cannot be kept, the number is zero. -/
theorem unsignedExponent_below {s : List Char} (h : AllDigits s) (hs : s ≠ []) {digits : Nat}
    (hdigits : digits ≤ maxWhole) {shift : Int} (hshift : shift ≤ 0) (negative : Bool) :
    ∃ r, unsignedExponent negative digits shift true s = .ok r := by
  cases s with
  | nil => exact absurd rfl hs
  | cons c s =>
    obtain ⟨hc, hrest⟩ := List.forall_mem_cons.mp h
    obtain ⟨-, hend⟩ := exponentDigits_allDigits hrest (c.toNat - '0'.toNat)
    simp only [unsignedExponent, digit?_eq, hc, if_true]
    rcases hread : exponentDigits (c.toNat - '0'.toNat) s with ⟨e, behind⟩
    rw [hread] at hend
    cases e with
    | some e =>
      obtain rfl : behind = [] := hend rfl
      exact decimal_of_isSome (Binary64.ofDecimal?_isSome_of_le hdigits (by omega)) negative
    | none => simp

/-! ## Leading digits -/

theorem take_toDigits_le (n k : Nat) :
    Nat.ofDigitChars 10 ((Nat.toDigits 10 n).take k) 0 *
      Nat.pow 10 ((Nat.toDigits 10 n).length - k) ≤ n := by
  have hvalue := Nat.ofDigitChars_ten_toDigits (n := n)
  rw [← List.take_append_drop k (Nat.toDigits 10 n), Nat.ofDigitChars_append] at hvalue
  have hle := mul_pow_le_ofDigitChars ((Nat.toDigits 10 n).drop k)
    (Nat.ofDigitChars 10 ((Nat.toDigits 10 n).take k) 0)
  rwa [hvalue, List.length_drop] at hle

theorem pow_length_toDigits_le {n : Nat} (hn : 0 < n) :
    Nat.pow 10 ((Nat.toDigits 10 n).length - 1) ≤ n := by
  obtain ⟨c, cs, hdigits, hc⟩ := toDigits_eq_cons_of_pos hn
  have hvalue := Nat.ofDigitChars_ten_toDigits (n := n)
  rw [hdigits, Nat.ofDigitChars_cons, Nat.mul_zero, Nat.zero_add] at hvalue
  have hle := mul_pow_le_ofDigitChars cs (c.toNat - '0'.toNat)
  rw [hvalue] at hle
  rw [hdigits, List.length_cons, Nat.add_sub_cancel]
  exact Nat.le_trans (Nat.le_mul_of_pos_left _ (Nat.pos_of_ne_zero hc)) hle

/-! ## Decimals -/

/-- A decimal below the second largest double is read from its text. -/
theorem number_text_of_below {d : Binary64.Decimal} (hd : 0 < d.digits)
    (hbelow : d.Below Binary64.secondLargest) (negative : Bool) :
    ∃ r, number negative d.text = .ok r := by
  rcases number_text negative hd with ⟨digits, exponent, hdigits, hexponent, hnumber⟩ |
    ⟨taken, lead, htaken, hlead, hdigits, hnumber⟩
  · rw [hnumber]
    exact decimal_of_isSome (Binary64.ofDecimal?_isSome_of_le hdigits (by omega)) negative
  · rw [hnumber]
    by_cases hsign : lead < 0
    · rw [if_pos hsign]
      exact unsignedExponent_below (allDigits_toDigits _) Nat.toDigits_ne_nil hdigits (by omega)
        negative
    · rw [if_neg hsign]
      obtain ⟨e, rfl⟩ := Int.eq_ofNat_of_zero_le (Int.not_lt.mp hsign)
      generalize hlength : (Nat.toDigits 10 d.digits).length = length at htaken hlead
      have he : e ≤ Binary64.maxPower := by
        have hpow := pow_length_toDigits_le hd
        rw [hlength, ← Nat.one_mul (Nat.pow 10 _)] at hpow
        exact Binary64.le_maxPower_of_lt Nat.one_pos (hbelow.scaled hpow (by omega))
      rw [Int.natAbs_natCast, exponent, unsignedExponent_toDigits (Nat.le_trans he (by decide))]
      simp only [Bool.false_eq_true, if_false]
      refine decimal_of_isSome ?_ negative
      -- The digits that were not taken are as many as the exponent that counts falls short.
      by_cases hsmall : -(taken : Int) + e ≤ 288
      · exact Binary64.ofDecimal?_isSome_of_le hdigits hsmall
      · have hleading := take_toDigits_le d.digits (taken + 1)
        rw [hlength] at hleading
        have hscaled := hbelow.scaled (e := e - taken) hleading (by omega)
        have hexponent : -(taken : Int) + e = (e - taken : Nat) := by omega
        rw [hexponent]
        exact Binary64.ofDecimal?_isSome_of_lt hdigits hscaled

/-! ## Doubles -/

theorem number_shortest {m : Nat} (hm : Binary64.IsMagnitude m) (hpos : 0 < m) (negative : Bool) :
    ∃ r, number negative (Binary64.shortest m).text = .ok r := by
  by_cases hbelow : m < Binary64.secondLargest
  · have hsecond : Binary64.IsMagnitude Binary64.secondLargest := by decide +kernel
    exact number_text_of_below (Binary64.shortest_digits_pos hpos)
      (Binary64.shortest_below hsecond hbelow) negative
  · have htop : ∀ negative,
        ∀ m ∈ [Binary64.secondLargest, Binary64.secondLargest + Binary64.topUnit],
          (number negative (Binary64.shortest m).text).toOption.isSome := by
      decide +kernel
    have hmem : m ∈ [Binary64.secondLargest, Binary64.secondLargest + Binary64.topUnit] := by
      rw [List.mem_cons, List.mem_singleton]
      exact Binary64.eq_of_secondLargest_le hm (Nat.not_lt.mp hbelow)
    have hsome := htop negative m hmem
    cases hnumber : number negative (Binary64.shortest m).text with
    | ok r => exact ⟨r, rfl⟩
    | error f =>
      rw [hnumber] at hsome
      cases hsome

end Json

/-- The text of a finite double can be read. -/
theorem Binary64.readable_of_isMagnitude {d : Binary64} (h : IsMagnitude d.magnitude) :
    d.Readable := by
  have hnumber : ∃ r, Json.number d.negative d.magnitudeText = .ok r := by
    unfold magnitudeText
    by_cases hzero : d.magnitude = 0
    · rw [if_pos hzero]
      have hsome : (ofDecimal? 0 (-1)).isSome := ofDecimal?_isSome_of_le (Nat.zero_le _) (by decide)
      exact Json.decimal_of_isSome hsome d.negative
    · rw [if_neg hzero]
      exact Json.number_shortest h (Nat.pos_of_ne_zero hzero) d.negative
  obtain ⟨⟨v, t⟩, hnumber⟩ := hnumber
  obtain ⟨⟨x, rfl⟩, rfl⟩ := number_magnitudeText_end hnumber
  have hread : Json.read (String.ofList d.text) = .ok (.double x) := by
    rw [Json.read_text, Json.readText, hnumber]
    rfl
  exact readable_of_read hread

/-! ## Values -/

namespace Json

mutual

/-- The doubles in a regular value can be read. -/
theorem readable_of_regular : (j : Json) → j.Regular → ∀ d ∈ j.doubles, d.Readable
  | .null, _, _, hmem => absurd hmem List.not_mem_nil
  | .bool _, _, _, hmem => absurd hmem List.not_mem_nil
  | .int _, _, _, hmem => absurd hmem List.not_mem_nil
  | .double d, h, e, hmem => by
    obtain rfl : e = d := List.mem_singleton.mp hmem
    exact Binary64.readable_of_isMagnitude h
  | .string _, _, _, hmem => absurd hmem List.not_mem_nil
  | .array items, h, d, hmem => readable_of_regularItems items h d hmem
  | .object members, h, d, hmem => readable_of_regularMembers members h.2 d hmem

theorem readable_of_regularItems : (js : List Json) → RegularItems js →
    ∀ d ∈ doublesItems js, d.Readable
  | [], _, _, hmem => absurd hmem List.not_mem_nil
  | j :: js, h, d, hmem => by
    rcases List.mem_append.mp hmem with hhead | htail
    · exact readable_of_regular j h.1 d hhead
    · exact readable_of_regularItems js h.2 d htail

theorem readable_of_regularMembers : (ms : List (String × Json)) → RegularMembers ms →
    ∀ d ∈ doublesMembers ms, d.Readable
  | [], _, _, hmem => absurd hmem List.not_mem_nil
  | (_, j) :: ms, h, d, hmem => by
    rcases List.mem_append.mp hmem with hhead | htail
    · exact readable_of_regular j h.1 d hhead
    · exact readable_of_regularMembers ms h.2 d htail

end

/-! ## Printed values -/

/-- The texts that a value is printed as: on one line, on several, and on several that end. -/
def printed (j : Json) : List String := [j.compact, j.pretty, j.pretty ++ "\n"]

/-- A value is read from each of its texts just if it is nested no deeper than a budget. -/
theorem readText_printed {α : Type} {budget : Nat} {read : Reader α} {j : Json} {x : α}
    (h : ReadsAt budget read j x) {text : String} (htext : text ∈ j.printed) :
    Yields (j.depth ≤ budget) (readText read text.toList) x := by
  rcases List.mem_cons.mp htext with rfl | htext
  · rw [compact, String.toList_ofList]
    exact readText_write h .compact
  rcases List.mem_cons.mp htext with rfl | htext
  · rw [pretty, String.toList_ofList]
    exact readText_write h .pretty
  obtain rfl := List.mem_singleton.mp htext
  have hline : (j.pretty ++ "\n").toList = write .pretty 0 j ++ ['\n'] := by
    rw [String.toList_append, pretty, String.toList_ofList]
    rfl
  rw [hline]
  exact readText_write_append h .pretty (stops_cons rfl []) rfl

/-- A value that can be held is read from each of its texts just if it is not nested too deep. -/
theorem read_printed {j : Json} (hj : j.Regular) {text : String} (htext : text ∈ j.printed) :
    Yields (j.depth ≤ maxDepth) (read text) j.reread :=
  readText_printed (readsNested_readValue.readsAt j hj (readable_of_regular j hj) maxDepth) htext

/-- A value without doubles is read back as it is. -/
theorem read_compact {j : Json} (hj : j.Regular) (hdepth : j.depth ≤ maxDepth)
    (hdoubles : j.doubles = []) : read j.compact = .ok j := by
  have hself : j.reread = j := by
    refine reread_eq_self j fun d hd => ?_
    rw [hdoubles] at hd
    exact absurd hd List.not_mem_nil
  rw [(read_printed hj List.mem_cons_self).value hdepth, hself]

end Json

end Flowline
