import Flowline.Json.Reader

/-!
# Passing over values

A member that no reader asks for is passed over. The grammar is the same, but what only matters
to a value that is kept is not looked at: how deep it is nested, whether a number is finite, and
whether surrogates come in pairs.
-/

namespace Flowline.Json

/-- Passes over the rest of a string, up to and with the closing quote. -/
def skipString : Nat → List Char → Except Fault (List Char)
  | 0, _ => .error (.upon .endInString [])
  | _ + 1, [] => .error (.upon .endInString [])
  | fuel + 1, c :: cs =>
    if c = '"' then .ok cs
    else if c = '\\' then
      match cs with
      | [] => .error (.upon .endInString [])
      | e :: es =>
        if (letterEscape? e).isSome then skipString fuel es
        else if e = 'u' then do
          let (_, rest) ← hexQuad es
          skipString fuel rest
        else .error (.upon .invalidEscape (e :: es))
    else if c.toNat < 32 then .error (.before .controlCharacter (c :: cs))
    else skipString fuel cs

/-- Passes over the digits of an exponent, from behind its letter. -/
def skipExponent (s : List Char) : Except Fault (List Char) :=
  let digits := match s with
    | '+' :: cs => cs
    | '-' :: cs => cs
    | cs => cs
  match digits with
  | [] => .error (.upon .invalidNumber [])
  | c :: cs =>
    if isDigit c then .ok (cs.dropWhile isDigit) else .error (.upon .invalidNumber (c :: cs))

/-- Passes over the digits behind the point, and an exponent. -/
def skipFraction (s : List Char) : Except Fault (List Char) :=
  match s with
  | [] => .error (.upon .invalidNumber [])
  | c :: cs =>
    if isDigit c then
      match cs.dropWhile isDigit with
      | [] => .ok []
      | e :: es => if isExponentMark e then skipExponent es else .ok (e :: es)
    else .error (.upon .invalidNumber (c :: cs))

/-- Passes over what follows the whole part of a number. -/
def skipAfterWhole : List Char → Except Fault (List Char)
  | [] => .ok []
  | c :: cs =>
    if c = '.' then skipFraction cs
    else if isExponentMark c then skipExponent cs
    else .ok (c :: cs)

/-- Passes over a number whose sign has been taken. -/
def skipNumber : List Char → Except Fault (List Char)
  | [] => .error (.upon .invalidNumber [])
  | c :: cs =>
    match digit? c with
    | none => .error (.upon .invalidNumber (c :: cs))
    | some 0 =>
      match cs with
      | d :: _ => if isDigit d then .error (.upon .invalidNumber cs) else skipAfterWhole cs
      | [] => .ok []
    | some _ => skipAfterWhole (cs.dropWhile isDigit)

/-- Passes over a key, from its opening quote on, and the colon behind it. -/
def skipKey (s : List Char) : Except Fault (List Char) :=
  match skipBlanks s with
  | [] => .error (.upon .endInObject [])
  | c :: cs =>
    if c = '"' then do
      let s ← skipString (cs.length + 1) cs
      colon s
    else .error (.upon .keyNotString (c :: cs))

/-- Passes over a value, given how to pass over an item behind the opening bracket of an array or
object. -/
def skipWith (inner : Char → List Char → Except Fault (List Char)) (s : List Char) :
    Except Fault (List Char) :=
  match skipBlanks s with
  | [] => .error (.upon .endInValue [])
  | c :: cs =>
    if c = 'n' then word ['u', 'l', 'l'] cs
    else if c = 't' then word ['r', 'u', 'e'] cs
    else if c = 'f' then word ['a', 'l', 's', 'e'] cs
    else if c = '-' then skipNumber cs
    else if isDigit c then skipNumber (c :: cs)
    else if c = '"' then skipString (cs.length + 1) cs
    else if c = '[' ∨ c = '\x7b' then inner c cs
    else .error (.upon .expectedValue (c :: cs))

mutual

/-- Passes over a value. Every level of nesting and every item takes a character, so that `fuel`
need only exceed the length of the text. -/
def skipValue : Nat → List Char → Except Fault (List Char)
  | 0, _ => .error (.upon .endInValue [])
  | fuel + 1, s => skipWith (fun c cs => skipItems fuel c true cs) s

/-- Passes over the items of an array or the members of an object, and the closing bracket. -/
def skipItems : Nat → Char → Bool → List Char → Except Fault (List Char)
  | 0, _, _, _ => .error (.upon .endInValue [])
  | fuel + 1, bracket, first, s =>
    match skipBlanks s with
    | [] => .error (.upon (if bracket = '[' then .endInArray else .endInObject) [])
    | c :: cs =>
      if c = (if bracket = '[' then ']' else '\x7d') then .ok cs
      else if first ∨ c = ',' then do
        let s := if first then c :: cs else cs
        let s ← if bracket = '[' then .ok s else skipKey s
        let s ← skipValue fuel s
        skipItems fuel bracket false s
      else
        .error (.upon (if bracket = '[' then .expectedCommaOrBracket else .expectedCommaOrBrace)
          (c :: cs))

end

/-- Passes over a value of any depth. -/
def skip (s : List Char) : Except Fault (List Char) := skipValue (2 * s.length + 2) s

end Flowline.Json
