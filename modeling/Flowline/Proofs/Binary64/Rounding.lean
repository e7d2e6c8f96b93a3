import Flowline.Binary64.Basic

/-!
# Rounding to doubles

`nearest` gives a magnitude that a double can have, keeps every such magnitude, and is monotone in
the ratio that it rounds. All of this comes from one fact: what a magnitude keeps is at most 53
bits, and exactly 53 where low bits are dropped.
-/

namespace Flowline.Binary64

/-! ## Powers of two -/

theorem pow_two_pos (k : Nat) : 0 < Nat.pow 2 k := Nat.two_pow_pos k

theorem pow_two_add (j k : Nat) : Nat.pow 2 (j + k) = Nat.pow 2 j * Nat.pow 2 k := Nat.pow_add 2 j k

theorem pow_two_le {j k : Nat} (h : j ≤ k) : Nat.pow 2 j ≤ Nat.pow 2 k :=
  Nat.pow_le_pow_right (by decide) h

theorem pow_two_lt {j k : Nat} (h : j < k) : Nat.pow 2 j < Nat.pow 2 k :=
  Nat.pow_lt_pow_right (by decide) h

theorem pow_two_dvd {j k : Nat} (h : j ≤ k) : Nat.pow 2 j ∣ Nat.pow 2 k := Nat.pow_dvd_pow 2 h

/-! ## Rounding to a whole number -/

theorem roundDiv_le {num den k : Nat} (hden : 0 < den) (h : num ≤ k * den) :
    roundDiv num den ≤ k := by
  have hquotient : num / den ≤ k := Nat.div_le_of_le_mul (by rwa [Nat.mul_comm])
  rcases Nat.lt_or_eq_of_le hquotient with hlt | heq
  · unfold roundDiv
    split
    · exact hquotient
    · split
      · exact hlt
      · split
        · exact hquotient
        · exact hlt
  · -- The quotient is exact.
    have hsum := Nat.div_add_mod num den
    rw [heq, Nat.mul_comm] at hsum
    have hrest : num % den = 0 := by omega
    rw [roundDiv, hrest, if_pos (by omega)]
    exact hquotient

theorem div_le_roundDiv (num den : Nat) : num / den ≤ roundDiv num den := by
  unfold roundDiv
  split
  · exact Nat.le_refl _
  · split
    · exact Nat.le_succ _
    · split
      · exact Nat.le_refl _
      · exact Nat.le_succ _

theorem roundDiv_le_succ (num den : Nat) : roundDiv num den ≤ num / den + 1 := by
  unfold roundDiv
  split
  · exact Nat.le_succ _
  · split
    · exact Nat.le_refl _
    · split
      · exact Nat.le_succ _
      · exact Nat.le_refl _

theorem le_roundDiv {num den k : Nat} (hden : 0 < den) (h : k * den ≤ num) :
    k ≤ roundDiv num den :=
  Nat.le_trans ((Nat.le_div_iff_mul_le hden).mpr h) (div_le_roundDiv num den)

theorem roundDiv_mono {num num' : Nat} (den : Nat) (h : num ≤ num') :
    roundDiv num den ≤ roundDiv num' den := by
  rcases Nat.lt_or_eq_of_le (Nat.div_le_div_right (c := den) h) with hlt | heq
  · calc
      roundDiv num den ≤ num / den + 1 := roundDiv_le_succ num den
      _ ≤ num' / den := hlt
      _ ≤ roundDiv num' den := div_le_roundDiv num' den
  · -- With equal quotients the rests decide.
    have hrest : num % den ≤ num' % den := by
      have hsum := Nat.div_add_mod num den
      have hsum' := Nat.div_add_mod num' den
      rw [heq] at hsum
      omega
    simp only [roundDiv, heq]
    split <;> split <;> grind

theorem roundDiv_scale {c : Nat} (hc : 0 < c) (num den : Nat) :
    roundDiv (c * num) (c * den) = roundDiv num den := by
  have hlt (a b : Nat) : c * a < c * b ↔ a < b := Nat.mul_lt_mul_left hc
  simp only [roundDiv, Nat.mul_div_mul_left _ _ hc, Nat.mul_mod_mul_left, Nat.mul_left_comm 2 c,
    hlt]

/-! ## Dropped bits -/

theorem lt_pow_droppedBits (whole : Nat) : whole < Nat.pow 2 (53 + droppedBits whole) := by
  have hle : whole.log2 + 1 ≤ 53 + droppedBits whole := by
    unfold droppedBits
    omega
  exact Nat.lt_of_lt_of_le Nat.lt_log2_self (pow_two_le hle)

theorem pow_droppedBits_le {whole : Nat} (h : 0 < droppedBits whole) :
    Nat.pow 2 (52 + droppedBits whole) ≤ whole := by
  unfold droppedBits at h ⊢
  have hne : whole ≠ 0 := by
    rintro rfl
    exact absurd h (by decide)
  have hlog : 52 + (whole.log2 - 52) = whole.log2 := by omega
  rw [hlog]
  exact Nat.log2_self_le hne

theorem droppedBits_le {whole k : Nat} (h : whole < Nat.pow 2 (53 + k)) :
    droppedBits whole ≤ k := by
  apply Nat.le_of_not_lt
  intro hlt
  have hlow := pow_droppedBits_le (Nat.zero_lt_of_lt hlt)
  have hpow := pow_two_le (j := 53 + k) (k := 52 + droppedBits whole) (by omega)
  omega

theorem droppedBits_mono {whole whole' : Nat} (h : whole ≤ whole') :
    droppedBits whole ≤ droppedBits whole' :=
  droppedBits_le (Nat.lt_of_le_of_lt h (lt_pow_droppedBits whole'))

/-! ## Rounding to 53 bits -/

variable {num den : Nat}

/-- What is kept has at most 53 bits, or is the least number that has 54. -/
theorem kept_le (hden : 0 < den) :
    roundDiv num (den * Nat.pow 2 (droppedBits (num / den))) ≤ Nat.pow 2 53 := by
  refine roundDiv_le (Nat.mul_pos hden (pow_two_pos _)) ?_
  have hlt := (Nat.div_lt_iff_lt_mul hden).mp (lt_pow_droppedBits (num / den))
  rw [pow_two_add, Nat.mul_assoc, Nat.mul_comm _ den] at hlt
  exact Nat.le_of_lt hlt

/-- Where bits are dropped, what is kept has 53 bits. -/
theorem le_kept (hden : 0 < den) (h : 0 < droppedBits (num / den)) :
    Nat.pow 2 52 ≤ roundDiv num (den * Nat.pow 2 (droppedBits (num / den))) := by
  refine le_roundDiv (Nat.mul_pos hden (pow_two_pos _)) ?_
  have hle := (Nat.le_div_iff_mul_le hden).mp (pow_droppedBits_le h)
  rwa [pow_two_add, Nat.mul_assoc, Nat.mul_comm _ den] at hle

theorem nearest_mono {num' : Nat} (hden : 0 < den) (h : num ≤ num') :
    nearest num den ≤ nearest num' den := by
  have hquotient : num / den ≤ num' / den := Nat.div_le_div_right h
  simp only [nearest]
  rcases Nat.lt_or_eq_of_le (droppedBits_mono hquotient) with hlt | heq
  · -- Everything below a power of two rounds to at most that power.
    have hpos : 0 < droppedBits (num' / den) := Nat.zero_lt_of_lt hlt
    calc
      _ ≤ Nat.pow 2 53 * Nat.pow 2 (droppedBits (num / den)) :=
        Nat.mul_le_mul_right _ (kept_le hden)
      _ = Nat.pow 2 (53 + droppedBits (num / den)) := (pow_two_add _ _).symm
      _ ≤ Nat.pow 2 (52 + droppedBits (num' / den)) := pow_two_le (by omega)
      _ = Nat.pow 2 52 * Nat.pow 2 (droppedBits (num' / den)) := pow_two_add _ _
      _ ≤ _ := Nat.mul_le_mul_right _ (le_kept hden hpos)
  · rw [heq]
    exact Nat.mul_le_mul_right _ (roundDiv_mono _ h)

theorem nearest_scale {c : Nat} (hc : 0 < c) (num den : Nat) :
    nearest (c * num) (c * den) = nearest num den := by
  simp only [nearest, Nat.mul_div_mul_left _ _ hc, Nat.mul_assoc, roundDiv_scale hc]

/-- Rounding is monotone in the ratio. -/
theorem nearest_le_nearest {num' den' : Nat} (hden : 0 < den) (hden' : 0 < den')
    (h : num * den' ≤ num' * den) : nearest num den ≤ nearest num' den' := by
  calc
    nearest num den = nearest (den' * num) (den' * den) := (nearest_scale hden' num den).symm
    _ ≤ nearest (den * num') (den' * den) :=
      nearest_mono (Nat.mul_pos hden' hden) (by rwa [Nat.mul_comm den', Nat.mul_comm den])
    _ = nearest (den * num') (den * den') := by rw [Nat.mul_comm den']
    _ = nearest num' den' := nearest_scale hden num' den'

theorem nearest_of_dvd {m : Nat} (h : Nat.pow 2 (droppedBits m) ∣ m) : nearest m 1 = m := by
  simp only [nearest, Nat.div_one, Nat.one_mul]
  obtain ⟨k, hk⟩ := h
  have hround : roundDiv m (Nat.pow 2 (droppedBits m)) = k := by
    have hpos := pow_two_pos (droppedBits m)
    generalize Nat.pow 2 (droppedBits m) = unit at hk hpos
    rw [hk]
    have hscale := roundDiv_scale hpos k 1
    rwa [Nat.mul_one, roundDiv_one] at hscale
  rw [hround, Nat.mul_comm]
  exact hk.symm

/-- What was rounded stays as it is. -/
theorem nearest_nearest (hden : 0 < den) : nearest (nearest num den) 1 = nearest num den := by
  apply nearest_of_dvd
  simp only [nearest]
  have hkept := @kept_le num den hden
  generalize droppedBits (num / den) = k at hkept ⊢
  generalize roundDiv num (den * Nat.pow 2 k) = kept at hkept ⊢
  rcases Nat.lt_or_eq_of_le hkept with hlt | rfl
  · have hbits : droppedBits (kept * Nat.pow 2 k) ≤ k := by
      refine droppedBits_le ?_
      rw [pow_two_add]
      exact Nat.mul_lt_mul_of_pos_right hlt (pow_two_pos k)
    exact Nat.dvd_trans (pow_two_dvd hbits) (Nat.dvd_mul_left _ _)
  · rw [← pow_two_add]
    have hbits : droppedBits (Nat.pow 2 (53 + k)) ≤ k + 1 :=
      droppedBits_le (pow_two_lt (by omega))
    exact pow_two_dvd (by omega)

end Flowline.Binary64
