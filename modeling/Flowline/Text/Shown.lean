import Flowline.Text.Printable

/-!
# Strings inside messages

A message that names a string shows it in double quotes on one line: quotes, backslashes and the
usual control characters are escaped by a letter, and a character that is not printable is given
by its code point.
-/

namespace Flowline.Text

/-- How a character is shown in a message. -/
def shownChar (c : Char) : List Char :=
  if c = '\x00' then ['\\', '0']
  else if c = '\t' then ['\\', 't']
  else if c = '\r' then ['\\', 'r']
  else if c = '\n' then ['\\', 'n']
  else if c = '"' then ['\\', '"']
  else if c = '\\' then ['\\', '\\']
  else if isPrintable c then [c]
  else '\\' :: 'u' :: '\x7b' :: (Nat.toDigits 16 c.toNat ++ ['\x7d'])

/-- How a string is shown in a message. -/
def shown (s : String) : String :=
  String.ofList ('"' :: (s.toList.flatMap shownChar ++ ['"']))

end Flowline.Text
