import Flowline.Proofs.Steps.Visits

/-!
# Paths as text

A path is written in decimal, with a dot in front of every position but the first. Decimal digits
are no dots, so the dots of a path count the containers around its step: `Visit.dots_path`.
-/

namespace Flowline

/-- How many dots a text has. -/
def dots (text : String) : Nat := text.toList.count '.'

theorem dots_append (a b : String) : dots (a ++ b) = dots a + dots b := by
  unfold dots
  rw [String.toList_append, List.count_append]

theorem dots_toString (n : Nat) : dots (toString n) = 0 := by
  apply List.count_eq_zero.mpr
  intro hdot
  rw [Nat.toString_eq_repr, Nat.toList_repr] at hdot
  have hdigit : '.'.isDigit = true := Nat.isDigit_of_mem_toDigits (by decide) (by decide) hdot
  cases hdigit

/-- How many dots stand in front of the last position of a path below a parent. -/
def dotsBelow : Option String → Nat
  | some parent => dots parent + 1
  | none => 0

theorem dots_childPath (parent : Option String) (index : Nat) :
    dots (childPath parent index) = dotsBelow parent := by
  cases parent with
  | none => exact dots_toString (index + 1)
  | some parent =>
    unfold childPath
    rw [dots_append, dots_append, dots_toString]
    rfl

theorem dotsBelow_pathBelow (parent : Option String) (positions : List Nat) :
    dotsBelow (pathBelow parent positions) = dotsBelow parent + positions.length := by
  induction positions generalizing parent with
  | nil => rfl
  | cons position positions ih =>
    have hstep : pathBelow parent (position :: positions) =
        pathBelow (some (childPath parent position)) positions := rfl
    rw [hstep, ih, dotsBelow, dots_childPath, List.length_cons]
    omega

/-- The path of a visit has as many dots as there are containers around its step. -/
theorem Visit.dots_path (v : Visit) : dots v.path = v.above.length := by
  have hbelow := dotsBelow_pathBelow none v.above
  unfold Visit.path
  rw [dots_childPath, hbelow]
  exact Nat.zero_add v.above.length

end Flowline
