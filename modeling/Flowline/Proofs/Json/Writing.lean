import Flowline.Json.Scan

/-!
# How written values begin

The text of a value is never empty, and it begins in the way that tells what kind of value follows:
with a digit or a minus for a number, and with a mark or a letter for any other value. In particular
it begins with no blank, no comma and no closing bracket.
-/

namespace Flowline

namespace Json

/-! ## Digits -/

theorem digit?_eq (c : Char) :
    digit? c = if c.isDigit then some (c.toNat - '0'.toNat) else none := by
  by_cases h : '0' ≤ c ∧ c ≤ '9'
  · have hdigit : c.isDigit = true := by
      simpa [Char.isDigit, Char.le_def] using h
    rw [digit?, if_pos h, if_pos hdigit]
  · have hother : ¬c.isDigit = true := by
      simpa [Char.isDigit, Char.le_def] using h
    rw [digit?, if_neg h, if_neg hother]

@[simp] theorem isDigit_eq (c : Char) : isDigit c = c.isDigit := by
  rw [isDigit, digit?_eq]
  cases c.isDigit <;> rfl

/-- The first digit of a number. -/
theorem toDigits_eq_cons (n : Nat) :
    ∃ c cs, Nat.toDigits 10 n = c :: cs ∧ c.isDigit = true := by
  obtain ⟨c, cs, h⟩ := List.exists_cons_of_ne_nil (Nat.toDigits_ne_nil (n := n) (b := 10))
  have hmem : c ∈ Nat.toDigits 10 n := by
    rw [h]
    exact List.mem_cons_self
  exact ⟨c, cs, h, Nat.isDigit_of_mem_toDigits (by decide) (by decide) hmem⟩

end Json

/-- The text of a positive decimal begins with a digit. -/
theorem Binary64.Decimal.text_eq_cons (d : Decimal) :
    ∃ c cs, d.text = c :: cs ∧ c.isDigit = true := by
  obtain ⟨c, cs, hdigits, hc⟩ := Json.toDigits_eq_cons d.digits
  have hpoint (k : Nat) : pointAfter (k + 1) (c :: cs) = c :: pointAfter k cs := rfl
  simp only [text, hdigits]
  split
  · -- One digit stands in front of the exponent, or of the point.
    split
    · exact ⟨c, _, rfl, hc⟩
    · exact ⟨c, _, rfl, hc⟩
  · split
    · exact ⟨'0', _, rfl, rfl⟩
    · split
      · exact ⟨c, _, rfl, hc⟩
      · exact ⟨c, _, rfl, hc⟩

/-- The text of a double without its sign. -/
def Binary64.magnitudeText (d : Binary64) : List Char :=
  if d.magnitude = 0 then ['0', '.', '0'] else (shortest d.magnitude).text

theorem Binary64.text_eq (d : Binary64) :
    d.text = if d.negative then '-' :: d.magnitudeText else d.magnitudeText := rfl

theorem Binary64.magnitudeText_eq_cons (d : Binary64) :
    ∃ c cs, d.magnitudeText = c :: cs ∧ c.isDigit = true := by
  unfold magnitudeText
  split
  · exact ⟨'0', _, rfl, rfl⟩
  · exact (shortest d.magnitude).text_eq_cons

namespace Json

/-! ## First characters -/

/-- A character that the text of a value can begin with. -/
def opensValue (c : Char) : Bool :=
  c.isDigit || c == '-' || c == '"' || c == '[' || c == '\x7b' || c == 'n' || c == 't' || c == 'f'

theorem opensValue_of_isDigit {c : Char} (h : c.isDigit = true) : opensValue c = true := by
  simp [opensValue, h]

theorem write_eq_cons (layout : Layout) (level : Nat) (j : Json) :
    ∃ c cs, write layout level j = c :: cs ∧ opensValue c = true := by
  cases j with
  | null => exact ⟨'n', _, rfl, rfl⟩
  | bool b => cases b with
    | true => exact ⟨'t', _, rfl, rfl⟩
    | false => exact ⟨'f', _, rfl, rfl⟩
  | int n => cases n with
    | ofNat n =>
      obtain ⟨c, cs, h, hc⟩ := toDigits_eq_cons n
      exact ⟨c, cs, h, opensValue_of_isDigit hc⟩
    | negSucc n => exact ⟨'-', _, rfl, rfl⟩
  | double d =>
    obtain ⟨c, cs, h, hc⟩ := d.magnitudeText_eq_cons
    rw [write, d.text_eq, h]
    split
    · exact ⟨'-', _, rfl, rfl⟩
    · exact ⟨c, cs, rfl, opensValue_of_isDigit hc⟩
  | string s => exact ⟨'"', _, rfl, rfl⟩
  | array items => exact ⟨'[', _, rfl, rfl⟩
  | object members => exact ⟨'\x7b', _, rfl, rfl⟩

/-- Only null begins like null. -/
theorem write_eq_cons_of_ne_null (layout : Layout) (level : Nat) {j : Json} (hj : j ≠ .null) :
    ∃ c cs, write layout level j = c :: cs ∧ c ≠ 'n' := by
  have hdigit {c : Char} (hc : c.isDigit = true) : c ≠ 'n' := by
    rintro rfl
    cases hc
  cases j with
  | null => exact absurd rfl hj
  | bool b => cases b with
    | true => exact ⟨'t', _, rfl, by decide⟩
    | false => exact ⟨'f', _, rfl, by decide⟩
  | int n => cases n with
    | ofNat n =>
      obtain ⟨c, cs, h, hc⟩ := toDigits_eq_cons n
      exact ⟨c, cs, h, hdigit hc⟩
    | negSucc n => exact ⟨'-', _, rfl, by decide⟩
  | double d =>
    obtain ⟨c, cs, h, hc⟩ := d.magnitudeText_eq_cons
    rw [write, d.text_eq, h]
    split
    · exact ⟨'-', _, rfl, by decide⟩
    · exact ⟨c, cs, rfl, hdigit hc⟩
  | string s => exact ⟨'"', _, rfl, by decide⟩
  | array items => exact ⟨'[', _, rfl, by decide⟩
  | object members => exact ⟨'\x7b', _, rfl, by decide⟩

theorem compact_ne_empty (j : Json) : j.compact ≠ "" := by
  obtain ⟨c, cs, h, -⟩ := write_eq_cons .compact 0 j
  intro hempty
  have hchars := congrArg String.toList hempty
  rw [compact, String.toList_ofList, h] at hchars
  cases hchars

end Json

end Flowline
