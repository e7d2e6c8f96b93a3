/-!
# Double-precision numbers

A finite double is a sign and a whole number of the smallest positive double, which is
2 to the power of -1074. Sums of digits, products and quotients are therefore exact ratios of
natural numbers, and `nearest` is the one place where a ratio becomes a double: it keeps 53
significant bits, and a half goes to the even neighbour.
-/

namespace Flowline

/-- A finite double: its sign and its magnitude, counted in units of 2^-1074. -/
structure Binary64 where
  negative : Bool
  magnitude : Nat
  deriving DecidableEq, Repr, Inhabited

namespace Binary64

/-- How many units make one. -/
def one : Nat := Nat.pow 2 1074

/-- The least magnitude that no finite double reaches. -/
def limit : Nat := Nat.pow 2 2098

/-- The whole number nearest to a quotient; a half goes to the even one. -/
def roundDiv (num den : Nat) : Nat :=
  if 2 * (num % den) < den then num / den
  else if den < 2 * (num % den) then num / den + 1
  else if num / den % 2 = 0 then num / den else num / den + 1

/-- How many of the low bits of a magnitude with whole part `whole` cannot be kept. -/
def droppedBits (whole : Nat) : Nat := whole.log2 - 52

/-- The magnitude nearest to `num / den` units that has 53 significant bits. -/
def nearest (num den : Nat) : Nat :=
  let unit := Nat.pow 2 (droppedBits (num / den))
  roundDiv num (den * unit) * unit

/-- A magnitude that a finite double can have. -/
def IsMagnitude (m : Nat) : Prop := nearest m 1 = m ∧ m < limit

instance (m : Nat) : Decidable (IsMagnitude m) := inferInstanceAs (Decidable (_ ∧ _))

/-- Zero of either sign. -/
def isZero (d : Binary64) : Bool := d.magnitude == 0

/-- The magnitude of the double nearest to a natural number. -/
def ofNat (n : Nat) : Nat := nearest (n * one) 1

/-- The magnitude of the rounded product of two magnitudes. -/
def mul (a b : Nat) : Nat := nearest (a * b) one

/-- The magnitude of the rounded quotient of two magnitudes. -/
def div (a b : Nat) : Nat := nearest (a * one) b

/-- The magnitude of the double nearest to a power of ten. -/
def powerOfTen (k : Nat) : Nat := ofNat (Nat.pow 10 k)

/-- The largest power of ten that is a finite double. -/
def maxPower : Nat := 308

/-- Divides by a power of ten in steps of at most 308 decimal places, rounding after each. It
stops early at zero, so `fuel` need not exceed the exponent. -/
def scaleDown : Nat → Nat → Nat → Nat
  | 0, m, _ => m
  | fuel + 1, m, k =>
    if k ≤ maxPower then div m (powerOfTen k)
    else if m = 0 then 0
    else scaleDown fuel (div m (powerOfTen maxPower)) (k - maxPower)

/-- The magnitude that a decimal reads as: the digits are rounded first, and then multiplied or
divided by a rounded power of ten. `none` when the result is no finite double. -/
def ofDecimal? (digits : Nat) (exponent : Int) : Option Nat :=
  let m := ofNat digits
  if exponent < 0 then some (scaleDown exponent.natAbs m exponent.natAbs)
  else if exponent.natAbs ≤ maxPower then
    let product := mul m (powerOfTen exponent.natAbs)
    if product < limit then some product else none
  else if m = 0 then some 0 else none

theorem roundDiv_one (n : Nat) : roundDiv n 1 = n := by
  simp [roundDiv, Nat.mod_one]

theorem nearest_zero (den : Nat) : nearest 0 den = 0 := by
  rcases Nat.eq_zero_or_pos den with h | h <;> simp [nearest, roundDiv, droppedBits, h]

end Binary64

end Flowline
