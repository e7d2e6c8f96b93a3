import Flowline.Json.Shape

/-!
# Identifiers

A UUID is thirty-two hexadecimal digits. It is written in lower case with hyphens, and read in any
case with hyphens, without them, in braces, or as a URN.
-/

namespace Flowline

/-- A UUID: its digits, the first one first. -/
structure Uuid where
  digits : List (Fin 16)
  length_digits : digits.length = 32
  deriving DecidableEq, Repr

namespace Uuid

/-- A digit in lower case. -/
def digitChar (d : Fin 16) : Char := Nat.digitChar d

/-- The digits of a text without hyphens. -/
def hex (u : Uuid) : List Char := u.digits.map digitChar

/-- Hyphens behind the eighth, twelfth, sixteenth and twentieth digit. -/
def hyphenate (ds : List Char) : List Char :=
  ds.take 8 ++ '-' :: ((ds.drop 8).take 4 ++ '-' :: ((ds.drop 12).take 4 ++ '-' ::
    ((ds.drop 16).take 4 ++ '-' :: ds.drop 20)))

/-- How a UUID is written. -/
def text (u : Uuid) : String := String.ofList (hyphenate u.hex)

/-- The digit that a character stands for. -/
def digit? (c : Char) : Option (Fin 16) :=
  match Json.hexValue? c with
  | some n => if h : n < 16 then some ⟨n, h⟩ else none
  | none => none

/-- Reads thirty-two digits. -/
def ofHex? (ds : List Char) : Option Uuid := do
  let digits ← ds.mapM digit?
  if h : digits.length = 32 then some ⟨digits, h⟩ else none

/-- Reads digits with hyphens at their places. -/
def ofHyphenated? (cs : List Char) : Option Uuid :=
  let ds := cs.filter (· ≠ '-')
  if ds.length = 32 ∧ hyphenate ds = cs then ofHex? ds else none

/-- A character in lower case, if it is an ASCII letter. -/
def lower (c : Char) : Char := c.toLower

/-- What a URN has in front of its UUID. -/
def urnHead : List Char := ['u', 'r', 'n', ':', 'u', 'u', 'i', 'd', ':']

/-- Reads a UUID in any of its forms. -/
def ofText? (text : String) : Option Uuid :=
  let cs := text.toList
  match cs.length with
  | 32 => ofHex? cs
  | 36 => ofHyphenated? cs
  | 38 =>
    if cs.head? = some '\x7b' ∧ cs.getLast? = some '\x7d' then ofHyphenated? (cs.drop 1).dropLast
    else none
  | 45 => if (cs.take 9).map lower = urnHead then ofHyphenated? (cs.drop 9) else none
  | _ => none

/-- A UUID is random when its version is four and its variant is the usual one. -/
def isRandom (u : Uuid) : Bool :=
  u.digits[12]? == some 4 && (u.digits[16]?.any fun d => 8 ≤ d && d ≤ 11)

/-- The lowest hexadecimal digits of a number, the last one first. -/
def lowDigits : Nat → Nat → List (Fin 16)
  | 0, _ => []
  | k + 1, n => ⟨n % 16, Nat.mod_lt _ (by decide)⟩ :: lowDigits k (n / 16)

theorem length_lowDigits (k n : Nat) : (lowDigits k n).length = k := by
  induction k generalizing n with
  | zero => rfl
  | succ k ih => simp [lowDigits, ih]

/-- The random UUID with the version and variant in place and all other digits taken from a
number. -/
def ofSeed (n : Nat) : Uuid where
  digits :=
    lowDigits 12 n ++ 4 :: (lowDigits 3 (n / Nat.pow 16 12) ++
      (⟨8 + n / Nat.pow 16 15 % 4, by omega⟩ :: lowDigits 15 (n / Nat.pow 16 15 / 4)))
  length_digits := by simp [length_lowDigits]

/-- Reads a UUID from a string. -/
def decode : Json.Decoder Uuid := fun budget s => do
  let (text, rest) ← Json.Decoder.string "a formatted UUID string" budget s
  match ofText? text with
  | some u => .ok (u, rest)
  | none => .error (.unfit .malformedUuid rest)

end Uuid

end Flowline
