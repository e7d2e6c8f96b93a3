import Flowline.Json.Scan
import Flowline.Proofs.Binary64.Decimals
import Flowline.Proofs.Binary64.Rounding

/-!
# Decimals that are read as doubles

Reading a decimal rounds its digits, a power of ten, and their product, so that the result may be
out of range although the decimal itself is near to a finite double. This does not happen below
the second largest double, where the results are bounded for each power of ten alone.
-/

namespace Flowline.Binary64

/-! ## Magnitudes -/

theorem isMagnitude_nearest {num den : Nat} (hden : 0 < den) (h : nearest num den < limit) :
    IsMagnitude (nearest num den) :=
  ⟨nearest_nearest hden, h⟩

theorem ofNat_mono {m n : Nat} (h : m ≤ n) : ofNat m ≤ ofNat n :=
  nearest_mono (by decide) (Nat.mul_le_mul_right one h)

theorem powerOfTen_mono {j k : Nat} (h : j ≤ k) : powerOfTen j ≤ powerOfTen k :=
  ofNat_mono (Nat.pow_le_pow_right (by decide) h)

theorem mul_mono {a b c d : Nat} (hac : a ≤ c) (hbd : b ≤ d) : mul a b ≤ mul c d :=
  nearest_mono one_pos (Nat.mul_le_mul hac hbd)

theorem ofNat_lt_limit {n : Nat} (h : n ≤ Json.maxWhole) : ofNat n < limit :=
  Nat.lt_of_le_of_lt (ofNat_mono h) (by decide +kernel)

theorem one_le_powerOfTen (k : Nat) : one ≤ powerOfTen k := by
  have hone : powerOfTen 0 = one := by decide +kernel
  calc
    one = powerOfTen 0 := hone.symm
    _ ≤ powerOfTen k := powerOfTen_mono (Nat.zero_le k)

/-- Dividing by at least one makes no magnitude larger. -/
theorem div_le_self {m d : Nat} (hm : IsMagnitude m) (hd : one ≤ d) : div m d ≤ m := by
  have hpos : 0 < d := Nat.lt_of_lt_of_le one_pos hd
  calc
    div m d ≤ nearest m 1 :=
      nearest_le_nearest hpos (by decide) (by
        rw [Nat.mul_one]
        exact Nat.mul_le_mul_left m hd)
    _ = m := hm.1

theorem isMagnitude_div {m d : Nat} (hm : IsMagnitude m) (hd : one ≤ d) :
    IsMagnitude (div m d) :=
  isMagnitude_nearest (Nat.lt_of_lt_of_le one_pos hd) (Nat.lt_of_le_of_lt (div_le_self hm hd) hm.2)

theorem isMagnitude_zero : IsMagnitude 0 := by decide +kernel

theorem isMagnitude_ofNat {n : Nat} (h : n ≤ Json.maxWhole) : IsMagnitude (ofNat n) :=
  isMagnitude_nearest (by decide) (ofNat_lt_limit h)

theorem isMagnitude_scaleDown (fuel : Nat) {m : Nat} (hm : IsMagnitude m) (k : Nat) :
    IsMagnitude (scaleDown fuel m k) := by
  induction fuel generalizing m k with
  | zero => exact hm
  | succ fuel ih =>
    unfold scaleDown
    split
    · exact isMagnitude_div hm (one_le_powerOfTen k)
    · split
      · exact isMagnitude_zero
      · exact ih (isMagnitude_div hm (one_le_powerOfTen maxPower)) _

/-- What a decimal is read as is a finite double. -/
theorem isMagnitude_ofDecimal? {digits m : Nat} {exponent : Int} (hdigits : digits ≤ Json.maxWhole)
    (h : ofDecimal? digits exponent = some m) : IsMagnitude m := by
  simp only [ofDecimal?] at h
  split at h
  · obtain rfl := Option.some.inj h
    exact isMagnitude_scaleDown _ (isMagnitude_ofNat hdigits) _
  · split at h
    · split at h
      · rename_i hlimit
        obtain rfl := Option.some.inj h
        exact isMagnitude_nearest one_pos hlimit
      · cases h
    · split at h
      · obtain rfl := Option.some.inj h
        exact isMagnitude_zero
      · cases h

/-! ## Results within range -/

/-- How far the largest doubles lie apart. -/
def topUnit : Nat := Nat.pow 2 2045

/-- The second largest double. -/
def secondLargest : Nat := limit - 2 * topUnit

theorem ofDecimal?_isSome_of_mul {digits e : Nat} (he : e ≤ maxPower)
    (h : mul (ofNat digits) (powerOfTen e) < limit) : (ofDecimal? digits e).isSome := by
  have hsign : ¬((e : Int) < 0) := by omega
  simp [ofDecimal?, hsign, Int.natAbs_natCast, he, h]

/-- Digits that are kept can be scaled by many powers of ten. -/
theorem ofDecimal?_isSome_of_le {digits : Nat} {exponent : Int} (hdigits : digits ≤ Json.maxWhole)
    (h : exponent ≤ 288) : (ofDecimal? digits exponent).isSome := by
  by_cases hsign : exponent < 0
  · simp [ofDecimal?, hsign]
  · obtain ⟨e, rfl⟩ := Int.eq_ofNat_of_zero_le (Int.not_lt.mp hsign)
    have he : e ≤ 288 := by omega
    refine ofDecimal?_isSome_of_mul (Nat.le_trans he (by decide)) ?_
    calc
      mul (ofNat digits) (powerOfTen e) ≤ mul (ofNat Json.maxWhole) (powerOfTen 288) :=
        mul_mono (ofNat_mono hdigits) (powerOfTen_mono he)
      _ < limit := by decide +kernel

theorem le_maxPower_of_lt {digits e : Nat} (hpos : 0 < digits)
    (h : digits * Nat.pow 10 e * one < secondLargest) : e ≤ maxPower := by
  have hten {j : Nat} (hj : j ≤ e) (htop : secondLargest ≤ Nat.pow 10 j * one) : False := by
    have hle : Nat.pow 10 j ≤ digits * Nat.pow 10 e :=
      Nat.le_trans (Nat.pow_le_pow_right (by decide) hj) (Nat.le_mul_of_pos_left _ hpos)
    exact absurd (Nat.lt_of_le_of_lt (Nat.mul_le_mul_right one hle) h) (Nat.not_lt.mpr htop)
  apply Nat.le_of_not_lt
  intro hlt
  exact hten hlt (by decide +kernel)

/-- A decimal below the second largest double can be scaled by its power of ten: for each power, the
largest digits below that double can. -/
theorem ofDecimal?_isSome_of_lt {digits e : Nat} (hdigits : digits ≤ Json.maxWhole)
    (h : digits * Nat.pow 10 e * one < secondLargest) : (ofDecimal? digits e).isSome := by
  have hpow : 0 < Nat.pow 10 e * one := Nat.mul_pos (Nat.pow_pos (by decide)) one_pos
  by_cases hsmall : e ≤ 288
  · exact ofDecimal?_isSome_of_le hdigits (by omega)
  by_cases hlarge : e ≤ maxPower
  · have hbounds : ∀ i < 20, mul (ofNat (secondLargest / (Nat.pow 10 (289 + i) * one)))
        (powerOfTen (289 + i)) < limit := by
      decide +kernel
    have hbound := hbounds (e - 289) (by unfold maxPower at hlarge; omega)
    rw [Nat.add_sub_cancel' (Nat.not_le.mp hsmall)] at hbound
    have hle : digits ≤ secondLargest / (Nat.pow 10 e * one) := by
      rw [Nat.mul_assoc] at h
      exact (Nat.le_div_iff_mul_le hpow).mpr (Nat.le_of_lt h)
    exact ofDecimal?_isSome_of_mul hlarge
      (Nat.lt_of_le_of_lt (mul_mono (ofNat_mono hle) (Nat.le_refl _)) hbound)
  · -- Only zero is that small.
    have hzero : digits = 0 := Nat.eq_zero_of_not_pos fun hpos => hlarge (le_maxPower_of_lt hpos h)
    have hsign : ¬((e : Int) < 0) := by omega
    have hround : ofNat 0 = 0 := by decide +kernel
    simp [ofDecimal?, hsign, hlarge, hzero, hround]

/-! ## Decimals below a bound -/

namespace Decimal

/-- A decimal whose exact value is less than a bound, which is counted like a magnitude. -/
def Below (d : Decimal) (bound : Nat) : Prop :=
  d.digits * Nat.pow 10 d.exponent.toNat * one < bound * Nat.pow 10 (-d.exponent).toNat

theorem pow_ten_zero : Nat.pow 10 0 = 1 := rfl

theorem magnitude_eq (d : Decimal) :
    d.magnitude =
      nearest (d.digits * Nat.pow 10 d.exponent.toNat * one) (Nat.pow 10 (-d.exponent).toNat) := by
  unfold magnitude
  split
  · rename_i hsign
    have hup : d.exponent.toNat = 0 := by omega
    have hdown : d.exponent.natAbs = (-d.exponent).toNat := by omega
    rw [hup, hdown, pow_ten_zero, Nat.mul_one]
  · rename_i hsign
    have hup : d.exponent.natAbs = d.exponent.toNat := by omega
    have hdown : (-d.exponent).toNat = 0 := by omega
    rw [hup, hdown, pow_ten_zero]

/-- A decimal that rounds to less than a magnitude is below it. -/
theorem below_of_magnitude {d : Decimal} {bound : Nat} (hbound : IsMagnitude bound)
    (h : d.magnitude < bound) : d.Below bound := by
  apply Nat.lt_of_not_le
  intro hle
  rw [magnitude_eq] at h
  have hnearest : nearest bound 1 ≤
      nearest (d.digits * Nat.pow 10 d.exponent.toNat * one) (Nat.pow 10 (-d.exponent).toNat) :=
    nearest_le_nearest (by decide) (Nat.pow_pos (by decide)) (by rwa [Nat.mul_one])
  rw [hbound.1] at hnearest
  omega

theorem Below.strip {d : Decimal} {bound : Nat} (h : d.Below bound) (fuel : Nat) :
    (d.strip fuel).Below bound := by
  refine strip_induction (P := fun d => d.Below bound) (fun digits exponent _ hlast => ?_) fuel h
  unfold Below at hlast ⊢
  simp only at hlast ⊢
  by_cases hsign : 0 ≤ exponent
  · have hup : (exponent + 1).toNat = exponent.toNat + 1 := by omega
    have hdown : (-(exponent + 1)).toNat = (-exponent).toNat := by omega
    rw [hup, hdown]
    have hdigits : digits * Nat.pow 10 (exponent.toNat + 1) =
        10 * digits * Nat.pow 10 exponent.toNat := by
      rw [Nat.pow_eq, Nat.pow_succ, Nat.pow_eq]
      ac_rfl
    rwa [hdigits]
  · have hup : (exponent + 1).toNat = exponent.toNat := by omega
    have hdown : (-exponent).toNat = (-(exponent + 1)).toNat + 1 := by omega
    rw [hdown] at hlast
    rw [hup]
    have hpow : bound * Nat.pow 10 ((-(exponent + 1)).toNat + 1) =
        10 * (bound * Nat.pow 10 (-(exponent + 1)).toNat) := by
      rw [Nat.pow_eq, Nat.pow_succ, Nat.pow_eq]
      ac_rfl
    rw [hpow, Nat.mul_assoc, Nat.mul_assoc] at hlast
    rw [Nat.mul_assoc]
    exact Nat.lt_of_mul_lt_mul_left hlast

/-- A shorter decimal with the same exponent: where its digits do not exceed the leading ones of the
decimal, it is below the bound as well. -/
theorem Below.scaled {d : Decimal} {bound digits dropped e : Nat} (h : d.Below bound)
    (hdigits : digits * Nat.pow 10 dropped ≤ d.digits) (he : d.exponent + dropped = e) :
    digits * Nat.pow 10 e * one < bound := by
  have hpow : Nat.pow 10 dropped * Nat.pow 10 d.exponent.toNat =
      Nat.pow 10 e * Nat.pow 10 (-d.exponent).toNat := by
    rw [Nat.pow_eq, Nat.pow_eq, Nat.pow_eq, Nat.pow_eq, ← Nat.pow_add, ← Nat.pow_add]
    congr 1
    omega
  unfold Below at h
  generalize Nat.pow 10 d.exponent.toNat = up at h hpow
  generalize Nat.pow 10 (-d.exponent).toNat = down at h hpow
  generalize Nat.pow 10 e = x at hpow ⊢
  generalize Nat.pow 10 dropped = y at hdigits hpow
  generalize one = unit at h ⊢
  have hlt : digits * x * unit * down < bound * down := by
    calc
      digits * x * unit * down = digits * (x * down) * unit := by ac_rfl
      _ = digits * y * up * unit := by rw [← hpow, ← Nat.mul_assoc digits]
      _ ≤ d.digits * up * unit := Nat.mul_le_mul_right unit (Nat.mul_le_mul_right up hdigits)
      _ < bound * down := h
  exact Nat.lt_of_mul_lt_mul_right hlt

end Decimal

/-- The decimal that a magnitude is written with is below every larger magnitude. -/
theorem shortest_below {m bound : Nat} (hbound : IsMagnitude bound) (h : m < bound) :
    (shortest m).Below bound := by
  rcases shortest_cases m with ⟨d, hd, hshortest⟩ | hshortest
  · rw [hshortest]
    exact (Decimal.below_of_magnitude hbound (by rwa [hd])).strip 17
  · rw [hshortest]
    have hexact (k : Nat) : m * Nat.pow 10 k / one * Nat.pow 10 0 * one < bound * Nat.pow 10 k :=
      calc
        m * Nat.pow 10 k / one * Nat.pow 10 0 * one ≤ m * Nat.pow 10 k := by
          rw [Decimal.pow_ten_zero, Nat.mul_one]
          exact Nat.div_mul_le_self _ one
        _ < bound * Nat.pow 10 k := Nat.mul_lt_mul_of_pos_right h (Nat.pow_pos (by decide))
    have hup : (-1074 : Int).toNat = 0 := rfl
    have hdown : (-(-1074 : Int)).toNat = 1074 := rfl
    simp only [Decimal.Below, hup, hdown]
    generalize 1074 = k
    exact hexact k

/-! ## The largest doubles -/

theorem pow_droppedBits_dvd {m : Nat} (h : nearest m 1 = m) : Nat.pow 2 (droppedBits m) ∣ m := by
  simp only [nearest, Nat.div_one] at h
  exact ⟨_, (h.symm.trans (Nat.mul_comm _ _))⟩

theorem eq_of_dvd_of_lt {unit m k : Nat} (hpos : 0 < unit) (hdvd : unit ∣ m) (hlow : unit * k ≤ m)
    (hhigh : m < unit * (k + 2)) : m = unit * k ∨ m = unit * k + unit := by
  obtain ⟨j, rfl⟩ := hdvd
  have hle := Nat.le_of_mul_le_mul_left hlow hpos
  have hlt := Nat.lt_of_mul_lt_mul_left hhigh
  have hj : j = k ∨ j = k + 1 := by omega
  rcases hj with rfl | rfl
  · exact .inl rfl
  · exact .inr (Nat.mul_succ unit k)

/-- Only two doubles are not below the second largest one. -/
theorem eq_of_secondLargest_le {m : Nat} (hm : IsMagnitude m) (h : secondLargest ≤ m) :
    m = secondLargest ∨ m = secondLargest + topUnit := by
  have hsecond : secondLargest = topUnit * 9007199254740990 := by decide +kernel
  have hlimit : limit = topUnit * (9007199254740990 + 2) := by decide +kernel
  have hbits {k : Nat} (hk : droppedBits m ≤ k)
      (hpow : Nat.pow 2 (53 + k) ≤ secondLargest) : False :=
    absurd (Nat.lt_of_lt_of_le (lt_pow_droppedBits m) (pow_two_le (Nat.add_le_add_left hk 53)))
      (Nat.not_lt.mpr (Nat.le_trans hpow h))
  have hdropped : 2045 ≤ droppedBits m := by
    apply Nat.le_of_not_lt
    intro hlt
    exact hbits (Nat.le_of_lt_succ hlt) (by decide +kernel)
  have hunit : topUnit ∣ Nat.pow 2 (droppedBits m) := pow_two_dvd (j := 2045) hdropped
  have hdvd := Nat.dvd_trans hunit (pow_droppedBits_dvd hm.1)
  have hhigh := hm.2
  rw [hsecond] at h ⊢
  rw [hlimit] at hhigh
  exact eq_of_dvd_of_lt (pow_two_pos 2045) hdvd h hhigh

end Flowline.Binary64
