import Flowline.Binary64.Shortest
import Flowline.Json.Basic

/-!
# Writing JSON

`write` gives the text of a value in one of two layouts: compact, without any blank, or pretty,
with every item on a line of its own, two blanks deeper for each level. Both put the same marks
in the same order, and empty arrays and objects stay on one line.
-/

namespace Flowline.Json

/-- How the text of a value is laid out. -/
inductive Layout where
  | compact
  | pretty
  deriving DecidableEq, Repr

namespace Layout

/-- What stands before an item, or before the closing bracket, at a level. -/
def gap : Layout → Nat → List Char
  | compact, _ => []
  | pretty, level => '\n' :: List.replicate (2 * level) ' '

/-- What stands between a key and its value. -/
def colon : Layout → List Char
  | compact => [':']
  | pretty => [':', ' ']

end Layout

/-- A hexadecimal digit in lower case. -/
def hexDigit (n : Nat) : Char := Nat.digitChar n

/-- How a character stands in a string: quotes, backslashes and control characters are escaped,
all others stand for themselves. -/
def escape (c : Char) : List Char :=
  if c = '"' then ['\\', '"']
  else if c = '\\' then ['\\', '\\']
  else if c = '\n' then ['\\', 'n']
  else if c = '\r' then ['\\', 'r']
  else if c = '\t' then ['\\', 't']
  else if c = '\x08' then ['\\', 'b']
  else if c = '\x0c' then ['\\', 'f']
  else if c.toNat < 32 then
    ['\\', 'u', '0', '0', hexDigit (c.toNat / 16), hexDigit (c.toNat % 16)]
  else [c]

/-- A string in quotes. -/
def quoted (s : String) : List Char := '"' :: (s.toList.flatMap escape ++ ['"'])

/-- A whole number. -/
def intText : Int → List Char
  | .ofNat n => Nat.toDigits 10 n
  | .negSucc n => '-' :: Nat.toDigits 10 (n + 1)

mutual

/-- The text of a value that stands at a level. -/
def write (layout : Layout) (level : Nat) : Json → List Char
  | .null => ['n', 'u', 'l', 'l']
  | .bool true => ['t', 'r', 'u', 'e']
  | .bool false => ['f', 'a', 'l', 's', 'e']
  | .int n => intText n
  | .double d => d.text
  | .string s => quoted s
  | .array items => '[' :: (writeItems layout level items ++ [']'])
  | .object members => '\x7b' :: (writeMembers layout level members ++ ['\x7d'])

/-- The items of an array, up to the closing bracket. -/
def writeItems (layout : Layout) (level : Nat) : List Json → List Char
  | [] => []
  | j :: js =>
    layout.gap (level + 1) ++ (write layout (level + 1) j ++ writeMoreItems layout level js)

/-- The items that follow another one. -/
def writeMoreItems (layout : Layout) (level : Nat) : List Json → List Char
  | [] => layout.gap level
  | j :: js =>
    ',' :: (layout.gap (level + 1) ++
      (write layout (level + 1) j ++ writeMoreItems layout level js))

/-- The members of an object, up to the closing brace. -/
def writeMembers (layout : Layout) (level : Nat) : List (String × Json) → List Char
  | [] => []
  | (k, j) :: ms =>
    layout.gap (level + 1) ++ (quoted k ++ (layout.colon ++
      (write layout (level + 1) j ++ writeMoreMembers layout level ms)))

/-- The members that follow another one. -/
def writeMoreMembers (layout : Layout) (level : Nat) : List (String × Json) → List Char
  | [] => layout.gap level
  | (k, j) :: ms =>
    ',' :: (layout.gap (level + 1) ++ (quoted k ++ (layout.colon ++
      (write layout (level + 1) j ++ writeMoreMembers layout level ms))))

end

/-- The text of a value without any blank. -/
def compact (j : Json) : String := String.ofList (write .compact 0 j)

/-- The text of a value over several lines. -/
def pretty (j : Json) : String := String.ofList (write .pretty 0 j)

end Flowline.Json
