import Flowline.Json.Fault

/-!
# Words, strings and numbers

The readers of the parts of a JSON text that hold no further values. Each takes the text in front
of it and gives back what follows. `stringRest` starts behind the opening quote and `number` behind
the sign.
-/

namespace Flowline.Json

/-- Takes a value off the front of a text. -/
abbrev Reader (α : Type) := List Char → Except Fault (α × List Char)

/-- The four blanks. -/
def isBlank (c : Char) : Bool := c == ' ' || c == '\n' || c == '\t' || c == '\r'

/-- The text behind the blanks in front. -/
def skipBlanks (s : List Char) : List Char := s.dropWhile isBlank

/-- Takes the letters of a word. -/
def word : List Char → List Char → Except Fault (List Char)
  | [], s => .ok s
  | _ :: _, [] => .error (.upon .endInValue [])
  | w :: ws, c :: cs =>
    if c = w then word ws cs else .error (.upon .misspelledWord (c :: cs))

/-! ## Strings -/

/-- The value of a hexadecimal digit of either case. -/
def hexValue? (c : Char) : Option Nat :=
  if '0' ≤ c ∧ c ≤ '9' then some (c.toNat - '0'.toNat)
  else if 'a' ≤ c ∧ c ≤ 'f' then some (c.toNat - 'a'.toNat + 10)
  else if 'A' ≤ c ∧ c ≤ 'F' then some (c.toNat - 'A'.toNat + 10)
  else none

/-- The value of four hexadecimal digits. -/
def hexQuad? : List Char → Option (Nat × List Char)
  | a :: b :: c :: d :: rest => do
    let a ← hexValue? a
    let b ← hexValue? b
    let c ← hexValue? c
    let d ← hexValue? d
    return (((a * 16 + b) * 16 + c) * 16 + d, rest)
  | _ => none

/-- Takes four bytes, which must be hexadecimal digits. -/
def hexQuad (s : List Char) : Except Fault (Nat × List Char) :=
  match hexQuad? s with
  | some r => .ok r
  | none =>
    if byteCount s < 4 then .error (.upon .endInString [])
    else .error ⟨.grammar .invalidEscape, byteCount s - 4⟩

/-- The first half of a surrogate pair. -/
def isLeading (n : Nat) : Bool := 0xd800 ≤ n && n ≤ 0xdbff

/-- The second half of a surrogate pair. -/
def isTrailing (n : Nat) : Bool := 0xdc00 ≤ n && n ≤ 0xdfff

/-- The character of a surrogate pair. -/
def pairChar (leading trailing : Nat) : Char :=
  Char.ofNat ((leading - 0xd800) * 0x400 + (trailing - 0xdc00) + 0x10000)

/-- Takes the second half of a surrogate pair. -/
def trailingHalf (leading : Nat) : Reader Char
  | [] => .error (.upon .endInString [])
  | ['\\'] => .error (.upon .endInString [])
  | '\\' :: 'u' :: s => do
    let (n, rest) ← hexQuad s
    if isTrailing n then .ok (pairChar leading n, rest) else .error (.before .loneSurrogate rest)
  | '\\' :: s => .error (.upon .endOfHexEscape s)
  | s => .error (.upon .endOfHexEscape s)

/-- Takes a character that is given by its code. -/
def codeEscape (s : List Char) : Except Fault (Char × List Char) := do
  let (n, rest) ← hexQuad s
  if isTrailing n then .error (.before .loneSurrogate rest)
  else if isLeading n then trailingHalf n rest
  else .ok (Char.ofNat n, rest)

/-- What a letter behind a backslash stands for. -/
def letterEscape? (c : Char) : Option Char :=
  if c = '"' then some '"'
  else if c = '\\' then some '\\'
  else if c = '/' then some '/'
  else if c = 'b' then some '\x08'
  else if c = 'f' then some '\x0c'
  else if c = 'n' then some '\n'
  else if c = 'r' then some '\r'
  else if c = 't' then some '\t'
  else none

/-- Takes the character that an escape stands for, from behind the backslash. -/
def escaped : Reader Char
  | [] => .error (.upon .endInString [])
  | c :: cs =>
    match letterEscape? c with
    | some e => .ok (e, cs)
    | none => if c = 'u' then codeEscape cs else .error (.upon .invalidEscape (c :: cs))

/-- Takes the characters of a string and the closing quote. Every step takes a character, so that
`fuel` need only exceed the length of the text. -/
def stringChars : Nat → Reader (List Char)
  | 0, _ => .error (.upon .endInString [])
  | _ + 1, [] => .error (.upon .endInString [])
  | fuel + 1, c :: cs =>
    if c = '"' then .ok ([], cs)
    else if c = '\\' then do
      let (x, rest) ← escaped cs
      let (xs, rest) ← stringChars fuel rest
      .ok (x :: xs, rest)
    else if c.toNat < 32 then .error (.upon .controlCharacter (c :: cs))
    else do
      let (xs, rest) ← stringChars fuel cs
      .ok (c :: xs, rest)

/-- Takes the rest of a string whose opening quote has been taken. -/
def stringRest (s : List Char) : Except Fault (String × List Char) := do
  let (cs, rest) ← stringChars (s.length + 1) s
  .ok (String.ofList cs, rest)

/-! ## Numbers -/

/-- The value of a decimal digit. -/
def digit? (c : Char) : Option Nat :=
  if '0' ≤ c ∧ c ≤ '9' then some (c.toNat - '0'.toNat) else none

/-- A decimal digit. -/
def isDigit (c : Char) : Bool := (digit? c).isSome

/-- The largest whole number that is kept exactly: the largest one of sixty-four bits. -/
def maxWhole : Nat := 18446744073709551615

/-- What the least whole number that is kept exactly lies below zero: the largest magnitude of
sixty-four bits with a sign. -/
def maxBelowZero : Nat := 9223372036854775808

/-- The largest exponent that is kept exactly: the largest one of thirty-two bits with a sign. -/
def maxExponent : Nat := 2147483647

/-- Takes digits into a number while it can be kept exactly. Gives the number, how many digits
it took, and the rest of the text. -/
def absorb (n : Nat) : List Char → Nat × Nat × List Char
  | [] => (n, 0, [])
  | c :: cs =>
    match digit? c with
    | some d =>
      if n * 10 + d ≤ maxWhole then
        let (m, taken, rest) := absorb (n * 10 + d) cs
        (m, taken + 1, rest)
      else (n, 0, c :: cs)
    | none => (n, 0, c :: cs)

/-- The double of a decimal, if it is finite. -/
def decimal (negative : Bool) (digits : Nat) (exponent : Int) : Reader Json := fun s =>
  match Binary64.ofDecimal? digits exponent with
  | some m => .ok (.double ⟨negative, m⟩, s)
  | none => .error (.before .numberOutOfRange s)

/-- A number without point and exponent. Zero with a sign, and what lies below the least whole
number, is a double. -/
def whole (negative : Bool) (n : Nat) : Json :=
  if !negative then .int n
  else if n = 0 ∨ maxBelowZero < n then .double ⟨true, Binary64.ofNat n⟩
  else .int (-n)

/-- Takes the digits of an exponent. Gives `none`, and the text behind the digit that was too
much, when the exponent cannot be kept. -/
def exponentDigits (n : Nat) : List Char → Option Nat × List Char
  | [] => (some n, [])
  | c :: cs =>
    match digit? c with
    | some d => if n * 10 + d ≤ maxExponent then exponentDigits (n * 10 + d) cs else (none, cs)
    | none => (some n, c :: cs)

/-- Takes the digits of an exponent whose sign has been taken. -/
def unsignedExponent (negative : Bool) (digits : Nat) (shift : Int) (below : Bool) : Reader Json
  | [] => .error (.upon .endInValue [])
  | c :: cs =>
    match digit? c with
    | none => .error (.upon .invalidNumber (c :: cs))
    | some d =>
      match exponentDigits d cs with
      | (some e, rest) => decimal negative digits (if below then shift - e else shift + e) rest
      | (none, rest) =>
        if digits ≠ 0 ∧ !below then .error (.before .numberOutOfRange rest)
        else .ok (.double ⟨negative, 0⟩, rest.dropWhile isDigit)

/-- Takes an exponent, from behind its letter. -/
def exponent (negative : Bool) (digits : Nat) (shift : Int) : Reader Json
  | '+' :: s => unsignedExponent negative digits shift false s
  | '-' :: s => unsignedExponent negative digits shift true s
  | s => unsignedExponent negative digits shift false s

/-- The letter in front of an exponent. -/
def isExponentMark (c : Char) : Bool := c == 'e' || c == 'E'

/-- Takes the digits behind the point. Digits that no longer fit are passed over. -/
def fraction (negative : Bool) (digits : Nat) (shift : Int) (s : List Char) :
    Except Fault (Json × List Char) :=
  let (digits, taken, rest) := absorb digits s
  match rest.dropWhile isDigit with
  | [] =>
    if s = [] then .error (.upon .endInValue []) else decimal negative digits (shift - taken) []
  | c :: cs =>
    if s = c :: cs then .error (.upon .invalidNumber s)
    else if isExponentMark c then exponent negative digits (shift - taken) cs
    else decimal negative digits (shift - taken) (c :: cs)

/-- Takes what follows the whole part of a number. Digits of the whole part that did not fit are
passed over, and each counts one power of ten. -/
def afterWhole (negative : Bool) (digits : Nat) (s : List Char) : Except Fault (Json × List Char) :=
  let rest := s.dropWhile isDigit
  let dropped := s.length - rest.length
  match rest with
  | '.' :: cs => fraction negative digits dropped cs
  | c :: cs =>
    if isExponentMark c then exponent negative digits dropped cs
    else if dropped = 0 then .ok (whole negative digits, c :: cs)
    else decimal negative digits dropped (c :: cs)
  | [] =>
    if dropped = 0 then .ok (whole negative digits, []) else decimal negative digits dropped []

/-- Takes a number whose sign has been taken. A zero in front is followed by no digit. -/
def number (negative : Bool) : Reader Json
  | [] => .error (.upon .endInValue [])
  | c :: cs =>
    match digit? c with
    | none => .error (.upon .invalidNumber (c :: cs))
    | some 0 =>
      match cs with
      | d :: _ =>
        if isDigit d then .error (.upon .invalidNumber cs) else afterWhole negative 0 cs
      | [] => afterWhole negative 0 []
    | some n =>
      let (digits, _, rest) := absorb n cs
      afterWhole negative digits rest

end Flowline.Json
