import Flowline.Binary64.Shortest

/-!
# Decimals of doubles

What `shortest` can give for a magnitude: a decimal that rounds to it, without the zeros at its
end, or its exact value on the finest grid.
-/

namespace Flowline.Binary64

theorem one_pos : 0 < one := by
  unfold one
  generalize 1074 = k
  exact Nat.pow_pos (by decide)

namespace Decimal

theorem magnitude_zero (exponent : Int) : magnitude ⟨0, exponent⟩ = 0 := by
  simp [magnitude, nearest_zero]

/-- Removing zeros keeps every property that holds of a decimal however its last zero is written. -/
theorem strip_induction {P : Decimal → Prop}
    (hstep : ∀ (digits : Nat) (exponent : Int), 0 < digits → P ⟨10 * digits, exponent⟩ →
      P ⟨digits, exponent + 1⟩)
    (fuel : Nat) {d : Decimal} (h : P d) : P (d.strip fuel) := by
  induction fuel generalizing d with
  | zero => exact h
  | succ fuel ih =>
    unfold strip
    split
    · rename_i hzero
      have hdigits : 10 * (d.digits / 10) = d.digits := by omega
      refine ih (hstep (d.digits / 10) d.exponent (by omega) ?_)
      rwa [hdigits]
    · exact h

theorem strip_digits_pos (fuel : Nat) {d : Decimal} (h : 0 < d.digits) :
    0 < (d.strip fuel).digits :=
  strip_induction (P := fun d => 0 < d.digits) (fun _ _ hpos _ => hpos) fuel h

end Decimal

theorem neighbour?_magnitude {m : Nat} {power : Int} {d : Decimal}
    (h : neighbour? m power = some d) : d.magnitude = m := by
  simp only [neighbour?] at h
  split at h <;> split at h <;> grind

theorem shortest_cases (m : Nat) :
    (∃ d : Decimal, d.magnitude = m ∧ shortest m = d.strip 17) ∨
      shortest m = ⟨m * Nat.pow 10 1074 / one, -1074⟩ := by
  unfold shortest
  cases hfound : (List.range 17).findSome? fun n : Nat => neighbour? m (leadingPower m - n) with
  | some d =>
    obtain ⟨n, -, hn⟩ := List.exists_of_findSome?_eq_some hfound
    exact .inl ⟨d, neighbour?_magnitude hn, by simp only [hfound]⟩
  | none => exact .inr (by simp only [hfound])

theorem shortest_digits_pos {m : Nat} (hm : 0 < m) : 0 < (shortest m).digits := by
  rcases shortest_cases m with ⟨d, hd, hshortest⟩ | hshortest
  · rw [hshortest]
    refine Decimal.strip_digits_pos 17 (Nat.pos_of_ne_zero fun hzero => ?_)
    rcases d with ⟨digits, exponent⟩
    obtain rfl : digits = 0 := hzero
    rw [Decimal.magnitude_zero] at hd
    omega
  · rw [hshortest]
    have hone : one ≤ Nat.pow 10 1074 := by
      unfold one
      generalize 1074 = k
      exact Nat.pow_le_pow_left (by decide) k
    exact Nat.div_pos (Nat.le_trans hone (Nat.le_mul_of_pos_left _ hm)) one_pos

end Flowline.Binary64
