import Flowline.Json.Scan

/-!
# Reading JSON values

`nextItem` and `nextKey` walk an array or an object from one item to the next; `items` and
`foldMembers` walk all of it. A value is read with a budget, the number of levels of nesting that
are still allowed, and `readValue` recurses on it. `readText` reads a whole text.
-/

namespace Flowline.Json

/-- How many levels arrays and objects may be nested in a text. -/
def maxDepth : Nat := 127

/-- Moves to the next item of an array: whether there is one, and the text in front of it or of
the closing bracket. -/
def nextItem (first : Bool) (s : List Char) : Except Fault (Bool × List Char) :=
  match skipBlanks s with
  | [] => .error (.upon .endInArray [])
  | c :: cs =>
    if c = ']' then .ok (false, c :: cs)
    else if first then .ok (true, c :: cs)
    else if c = ',' then
      match skipBlanks cs with
      | [] => .error (.upon .endInValue [])
      | d :: ds =>
        if d = ']' then .error (.upon .trailingComma (d :: ds)) else .ok (true, d :: ds)
    else .error (.upon .expectedCommaOrBracket (c :: cs))

/-- Moves to the next key of an object: whether there is one, and the text behind its opening
quote or in front of the closing brace. -/
def nextKey (first : Bool) (s : List Char) : Except Fault (Bool × List Char) :=
  match skipBlanks s with
  | [] => .error (.upon .endInObject [])
  | c :: cs =>
    if c = '\x7d' then .ok (false, c :: cs)
    else if first then
      if c = '"' then .ok (true, cs) else .error (.upon .keyNotString (c :: cs))
    else if c = ',' then
      match skipBlanks cs with
      | [] => .error (.upon .endInValue [])
      | d :: ds =>
        if d = '"' then .ok (true, ds)
        else if d = '\x7d' then .error (.upon .trailingComma (d :: ds))
        else .error (.upon .keyNotString (d :: ds))
    else .error (.upon .expectedCommaOrBrace (c :: cs))

/-- Takes the closing bracket of an array. -/
def closeArray (s : List Char) : Except Fault (List Char) :=
  match skipBlanks s with
  | [] => .error (.upon .endInArray [])
  | c :: cs =>
    if c = ']' then .ok cs
    else if c = ',' then
      match skipBlanks cs with
      | ']' :: ds => .error (.upon .trailingComma (']' :: ds))
      | ds => .error (.upon .trailingText ds)
    else .error (.upon .trailingText (c :: cs))

/-- Takes the closing brace of an object. -/
def closeObject (s : List Char) : Except Fault (List Char) :=
  match skipBlanks s with
  | [] => .error (.upon .endInObject [])
  | c :: cs =>
    if c = '\x7d' then .ok cs
    else if c = ',' then .error (.upon .trailingComma (c :: cs))
    else .error (.upon .trailingText (c :: cs))

/-- Takes the colon behind a key. -/
def colon (s : List Char) : Except Fault (List Char) :=
  match skipBlanks s with
  | [] => .error (.upon .endInObject [])
  | c :: cs => if c = ':' then .ok cs else .error (.upon .expectedColon (c :: cs))

/-- Takes the items of an array, up to the closing bracket. Every item takes a character, so that
`fuel` need only exceed the length of the text. -/
def items {α : Type} (item : Reader α) : Nat → Bool → Reader (List α)
  | 0, _, _ => .error (.upon .endInArray [])
  | fuel + 1, first, s => do
    let (more, s) ← nextItem first s
    if more then
      let (x, s) ← item s
      let (xs, s) ← items item fuel false s
      .ok (x :: xs, s)
    else .ok ([], s)

/-- Takes the members of an object, up to the closing brace, and folds them in order. The step is
given a key and the text behind it, from the colon on. -/
def foldMembers {σ : Type} (step : σ → String → Reader σ) : Nat → Bool → σ → Reader σ
  | 0, _, _, _ => .error (.upon .endInObject [])
  | fuel + 1, first, state, s => do
    let (more, s) ← nextKey first s
    if more then
      let (key, s) ← stringRest s
      let (state, s) ← step state key s
      foldMembers step fuel false state s
    else .ok (state, s)

/-- Takes a whole array, from behind its opening bracket. -/
def arrayRest {α : Type} (item : Reader α) (s : List Char) : Except Fault (List α × List Char) := do
  let (xs, s) ← items item (s.length + 1) true s
  let s ← closeArray s
  .ok (xs, s)

/-- Takes a whole object, from behind its opening brace. -/
def objectRest {σ : Type} (step : σ → String → Reader σ) (start : σ) (s : List Char) :
    Except Fault (σ × List Char) := do
  let (state, s) ← foldMembers step (s.length + 1) true start s
  let s ← closeObject s
  .ok (state, s)

/-- Takes the value of a member and sets it. -/
def putMember (value : Reader Json) (ms : Members) (key : String) : Reader Members := fun s => do
  let s ← colon s
  let (v, s) ← value s
  .ok (ms.put key v, s)

/-- Takes a value, given the reader of the values inside it. Without such a reader no further
level is allowed. -/
def valueWith (inner : Option (Reader Json)) (s : List Char) : Except Fault (Json × List Char) :=
  match skipBlanks s with
  | [] => .error (.upon .endInValue [])
  | c :: cs =>
    if c = 'n' then do
      let s ← word ['u', 'l', 'l'] cs
      .ok (.null, s)
    else if c = 't' then do
      let s ← word ['r', 'u', 'e'] cs
      .ok (.bool true, s)
    else if c = 'f' then do
      let s ← word ['a', 'l', 's', 'e'] cs
      .ok (.bool false, s)
    else if c = '-' then number true cs
    else if isDigit c then number false (c :: cs)
    else if c = '"' then do
      let (t, s) ← stringRest cs
      .ok (.string t, s)
    else if c = '[' then
      match inner with
      | none => .error (.upon .tooDeep (c :: cs))
      | some value => do
        let (xs, s) ← arrayRest value cs
        .ok (.array xs, s)
    else if c = '\x7b' then
      match inner with
      | none => .error (.upon .tooDeep (c :: cs))
      | some value => do
        let (ms, s) ← objectRest (putMember value) [] cs
        .ok (.object ms, s)
    else .error (.upon .expectedValue (c :: cs))

/-- Takes a value with at most `budget` levels of nesting. -/
def readValue : (budget : Nat) → Reader Json
  | 0 => valueWith none
  | budget + 1 => valueWith (some (readValue budget))

/-- Reads a whole text: one value with nothing but blanks around it. -/
def readText {α : Type} (reader : Reader α) (text : List Char) : Except Fault α := do
  let (x, rest) ← reader text
  match skipBlanks rest with
  | [] => .ok x
  | c :: cs => .error (.upon .trailingText (c :: cs))

/-- Reads a text as a value. -/
def read (text : String) : Except Fault Json := readText (readValue maxDepth) text.toList

end Flowline.Json
