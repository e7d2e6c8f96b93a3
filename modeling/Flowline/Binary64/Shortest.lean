import Flowline.Binary64.Basic

/-!
# The shortest decimal of a double

Among the decimals that round to a given double, `shortest` picks one with the fewest digits, and
of those the nearest to the double. For each number of digits only the two neighbours of the exact
value on that decimal grid can be the answer. `text` is how such a decimal is written: positional
while the leading digit stands between the sixth place after the point and the sixteenth before
it, and with an exponent elsewhere.
-/

namespace Flowline.Binary64

/-- A decimal: `digits` times ten to the power of `exponent`. -/
structure Decimal where
  digits : Nat
  exponent : Int
  deriving DecidableEq, Repr

namespace Decimal

/-- The magnitude of the double nearest to a decimal. -/
def magnitude (d : Decimal) : Nat :=
  if d.exponent < 0 then nearest (d.digits * one) (Nat.pow 10 d.exponent.natAbs)
  else nearest (d.digits * Nat.pow 10 d.exponent.natAbs * one) 1

/-- The same decimal without zeros at its end; `fuel` bounds how many are removed. -/
def strip : Nat → Decimal → Decimal
  | 0, d => d
  | fuel + 1, d =>
    if d.digits ≠ 0 ∧ d.digits % 10 = 0 then strip fuel ⟨d.digits / 10, d.exponent + 1⟩ else d

end Decimal

/-- The number of decimal digits of a natural number. -/
def digitCount (n : Nat) : Nat := (Nat.toDigits 10 n).length

/-- The power of ten of the leading digit of a positive magnitude. -/
def leadingPower (m : Nat) : Int :=
  if one ≤ m then (digitCount (m / one) : Int) - 1 else -(digitCount ((one - 1) / m) : Int)

/-- The exact value of a magnitude on the grid of the multiples of `10 ^ power`: the multiple
below it, the rest, and what a whole step counts. -/
def onGrid (m : Nat) (power : Int) : Nat × Nat × Nat :=
  let num := if power < 0 then m * Nat.pow 10 power.natAbs else m
  let den := if power < 0 then one else one * Nat.pow 10 power.natAbs
  (num / den, num % den, den)

/-- Of the two grid neighbours of a magnitude, the nearest that rounds to it; a tie goes to the
even one. -/
def neighbour? (m : Nat) (power : Int) : Option Decimal :=
  let (below, rest, step) := onGrid m power
  let lower : Decimal := ⟨below, power⟩
  let upper : Decimal := ⟨below + 1, power⟩
  let preferLower : Bool := 2 * rest < step || (2 * rest == step && below % 2 == 0)
  if preferLower then
    if lower.magnitude = m then some lower else if upper.magnitude = m then some upper else none
  else
    if upper.magnitude = m then some upper else if lower.magnitude = m then some lower else none

/-- The shortest decimal that rounds to a positive magnitude. Seventeen digits suffice for every
double; the exact value on the finest grid stands in for a magnitude that is none. -/
def shortest (m : Nat) : Decimal :=
  let top := leadingPower m
  match (List.range 17).findSome? (fun (n : Nat) => neighbour? m (top - n)) with
  | some d => d.strip 17
  | none => ⟨m * Nat.pow 10 1074 / one, -1074⟩

/-- A decimal point behind the first `k` digits. -/
def pointAfter (k : Nat) (ds : List Char) : List Char := ds.take k ++ '.' :: ds.drop k

/-- Writes a positive decimal: positional from 10^-5 up to below 10^16, else with one digit before
the point and a signed exponent. -/
def Decimal.text (d : Decimal) : List Char :=
  let ds := Nat.toDigits 10 d.digits
  let lead : Int := d.exponent + ds.length - 1
  if lead < -5 ∨ 15 < lead then
    (if ds.length = 1 then ds else pointAfter 1 ds) ++
      'e' :: (if lead < 0 then '-' else '+') :: Nat.toDigits 10 lead.natAbs
  else if lead < 0 then
    '0' :: '.' :: (List.replicate (lead.natAbs - 1) '0' ++ ds)
  else if 0 ≤ d.exponent then
    ds ++ List.replicate d.exponent.natAbs '0' ++ ['.', '0']
  else pointAfter (lead.natAbs + 1) ds

/-- How a double is written. -/
def text (d : Binary64) : List Char :=
  let digits := if d.magnitude = 0 then ['0', '.', '0'] else (shortest d.magnitude).text
  if d.negative then '-' :: digits else digits

end Flowline.Binary64
