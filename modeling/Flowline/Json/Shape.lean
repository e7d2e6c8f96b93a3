import Flowline.Json.Skip

/-!
# Reading values of a given shape

A decoder reads a text straight into a type, without a value in between, so that it reports what
comes first in the text: a break of the grammar or a value that does not fit. Records are read
from objects, where members that no field asks for are passed over, and from arrays, where items
stand in the order of the fields.
-/

namespace Flowline.Json

/-- Reads values that may be nested for so many levels. -/
abbrev Decoder (α : Type) := (budget : Nat) → Reader α

/-- What a value is called where it does not fit. -/
def found : Json → Found
  | .null => .null
  | .bool b => .bool b
  | .int n => .int n
  | .double d => .double d
  | .string s => .string s
  | .array _ => .sequence
  | .object _ => .map

/-- The fault of a value that is of another type than the one wanted. A scalar is read to its end
first, and a bracket is not taken. -/
def misplaced (wanted : String) (s : List Char) : Fault :=
  match skipBlanks s with
  | '[' :: cs => .unfit (.wrongType .sequence wanted) ('[' :: cs)
  | '\x7b' :: cs => .unfit (.wrongType .map wanted) ('\x7b' :: cs)
  | s =>
    match valueWith none s with
    | .ok (v, rest) => .unfit (.wrongType v.found wanted) rest
    | .error f => f

namespace Decoder

/-- Any value. -/
def value : Decoder Json := readValue

/-- A string. -/
def string (wanted : String) : Decoder String := fun _ s =>
  match skipBlanks s with
  | '"' :: cs => stringRest cs
  | s => .error (misplaced wanted s)

/-- A whole number between two bounds. -/
def int (low high : Int) (wanted : String) : Decoder Int := fun _ s =>
  match skipBlanks s with
  | c :: cs =>
    if c = '-' ∨ isDigit c then do
      let (v, rest) ← valueWith none (c :: cs)
      match v with
      | .int n =>
        if low ≤ n ∧ n ≤ high then .ok (n, rest)
        else .error (.unfit (.wrongValue n wanted) rest)
      | v => .error (.unfit (.wrongType v.found wanted) rest)
    else .error (misplaced wanted (c :: cs))
  | [] => .error (.upon .endInValue [])

/-- A whole number of at most so many. -/
def natUpTo (high : Nat) (wanted : String) : Decoder Nat := fun budget s => do
  let (n, rest) ← int 0 high wanted budget s
  .ok (n.toNat, rest)

/-- A whole number of sixty-four bits. -/
def count (wanted : String) : Decoder Nat := natUpTo maxWhole wanted

/-- A whole number of thirty-two bits. -/
def smallCount (wanted : String) : Decoder Nat := natUpTo 4294967295 wanted

/-- A value, or nothing where null stands. -/
def option {α : Type} (decode : Decoder α) : Decoder (Option α) := fun budget s =>
  match skipBlanks s with
  | 'n' :: cs => do
    let s ← word ['u', 'l', 'l'] cs
    .ok (none, s)
  | s => do
    let (x, s) ← decode budget s
    .ok (some x, s)

/-- What is read behind an opening bracket, one level deeper. -/
def deeper {α : Type} (bracket : Char) (inner : Decoder α) : Decoder α := fun budget s =>
  match budget with
  | 0 => .error (.upon .tooDeep (bracket :: s))
  | budget + 1 => inner budget s

/-- An array. -/
def list {α : Type} (decode : Decoder α) : Decoder (List α) := fun budget s =>
  match skipBlanks s with
  | '[' :: cs => deeper '[' (fun b => arrayRest (decode b)) budget cs
  | s => .error (misplaced "a sequence" s)

/-- An object whose members are folded in order. -/
def fold {σ : Type} (wanted : String) (step : Nat → σ → String → Reader σ) (start : σ) :
    Decoder σ := fun budget s =>
  match skipBlanks s with
  | '\x7b' :: cs => deeper '\x7b' (fun b => objectRest (step b) start) budget cs
  | s => .error (misplaced wanted s)

end Decoder

/-! ## Enumerations -/

/-- Takes the name of one of several alternatives, from behind its opening quote. -/
def variantName {α : Type} (variants : List (String × α)) (s : List Char) :
    Except Fault (α × List Char) := do
  let (name, rest) ← stringRest s
  match variants.lookup name with
  | some x => .ok (x, rest)
  | none => .error (.unfit (.unknownVariant name (variants.map Prod.fst)) rest)

/-- Takes a name where a name is wanted. -/
def variantIdentifier {α : Type} (variants : List (String × α)) (s : List Char) :
    Except Fault (α × List Char) :=
  match skipBlanks s with
  | '"' :: cs => variantName variants cs
  | s => .error (misplaced "variant identifier" s)

/-- Takes null where an alternative carries nothing. -/
def unit (s : List Char) : Except Fault (List Char) :=
  match skipBlanks s with
  | 'n' :: cs => word ['u', 'l', 'l'] cs
  | s => .error (misplaced "unit" s)

/-- Takes an alternative that stands as the key of an object, with null as its value. An object
without a key is reported at its closing brace. -/
def variantMember {α : Type} (variants : List (String × α)) (s : List Char) :
    Except Fault (α × List Char) := do
  let (more, s) ← nextKey true s
  if more then
    let (x, s) ← variantName variants s
    let s ← colon s
    let s ← unit s
    match skipBlanks s with
    | '\x7d' :: cs => .ok (x, cs)
    | [] => .error (.before .endInObject [])
    | s => .error (.before .expectedValue s)
  else .error (.upon .expectedValue s)

/-- One of several alternatives: its name, or an object with its name as the only key. -/
def Decoder.variant {α : Type} (variants : List (String × α)) : Decoder α := fun budget s =>
  match skipBlanks s with
  | [] => .error (.upon .endInValue [])
  | '"' :: cs => variantName variants cs
  | '\x7b' :: cs => Decoder.deeper '\x7b' (fun _ => variantMember variants) budget cs
  | s => .error (.upon .expectedValue s)

/-! ## Records -/

/-- What happens when a field is not there. -/
inductive Presence where
  /-- It has to be there. -/
  | required
  /-- An object may do without it, an array may not. -/
  | optional
  /-- It keeps its value from the blank record. -/
  | defaulted
  deriving DecidableEq, Repr

/-- A field of a record: its key, whether it may be missing, and how its value is read into the
record. -/
structure Field (σ : Type) where
  key : String
  presence : Presence
  take : Nat → σ → Reader σ

/-- A field whose value is decoded and then set. -/
def Field.of {σ α : Type} (key : String) (presence : Presence) (decode : Decoder α)
    (set : σ → α → σ) : Field σ :=
  ⟨key, presence, fun budget r s => do
    let (x, s) ← decode budget s
    .ok (set r x, s)⟩

/-- A record: how messages call it, the values of fields that are missing, and the fields in their
order. -/
structure Record (σ : Type) where
  name : String
  blank : σ
  fields : List (Field σ)

namespace Record

variable {σ : Type}

/-- How messages call the record when its length is wrong. -/
def lengthWanted (r : Record σ) : String :=
  r.name ++ " with " ++ toString r.fields.length ++
    (if r.fields.length = 1 then " element" else " elements")

/-- Takes the member with a key. The state holds the keys that were seen and the record so far. A
key that is there twice is reported behind the brace that would close the object. -/
def takeMember (r : Record σ) (budget : Nat) (state : List String × σ) (key : String) :
    Reader (List String × σ) := fun s =>
  match r.fields.find? (fun f => f.key == key) with
  | none => do
    let s ← colon s
    let s ← skip s
    .ok (state, s)
  | some f =>
    if key ∈ state.1 then
      match skipBlanks s with
      | '\x7d' :: cs => .error (.unfit (.duplicateField key) cs)
      | s => .error (.unfit (.duplicateField key) s)
    else do
      let s ← colon s
      let (x, s) ← f.take budget state.2 s
      .ok ((key :: state.1, x), s)

/-- The first field that has to be there and was not seen. -/
def missing? (r : Record σ) (seen : List String) : Option (Field σ) :=
  r.fields.find? fun f => f.presence == .required && !seen.contains f.key

/-- Takes a record that is written as an object, from behind the opening brace. -/
def ofObject (r : Record σ) : Decoder σ := fun budget s => do
  let ((seen, x), s) ← objectRest (r.takeMember budget) ([], r.blank) s
  match r.missing? seen with
  | some f => .error (.unfit (.missingField f.key) s)
  | none => .ok (x, s)

/-- Takes items into fields in order. A short array is reported behind its closing bracket. -/
def takeItems (r : Record σ) (budget : Nat) : List (Field σ) → Nat → Bool → σ → Reader σ
  | [], _, _, x, s => .ok (x, s)
  | f :: fs, index, first, x, s => do
    let (more, s) ← nextItem first s
    if more then
      let (x, s) ← f.take budget x s
      takeItems r budget fs (index + 1) false x s
    else if f.presence = .defaulted then takeItems r budget fs (index + 1) first x s
    else do
      let s ← closeArray s
      .error (.unfit (.wrongLength index r.lengthWanted) s)

/-- Takes a record that is written as an array, from behind the opening bracket. -/
def ofArray (r : Record σ) : Decoder σ := fun budget s => do
  let (x, s) ← r.takeItems budget r.fields 0 true r.blank s
  let s ← closeArray s
  .ok (x, s)

/-- Reads a record, from an object or an array. -/
def decode (r : Record σ) : Decoder σ := fun budget s =>
  match skipBlanks s with
  | '[' :: cs => Decoder.deeper '[' r.ofArray budget cs
  | '\x7b' :: cs => Decoder.deeper '\x7b' r.ofObject budget cs
  | s => .error (misplaced r.name s)

/-- Reads a record that is always written as an array. -/
def decodeArray (r : Record σ) : Decoder σ := fun budget s =>
  match skipBlanks s with
  | '[' :: cs => Decoder.deeper '[' r.ofArray budget cs
  | s => .error (misplaced r.name s)

end Record

/-- Reads a whole text with a decoder. -/
def Decoder.run {α : Type} (decode : Decoder α) (text : String) : Except Fault α :=
  readText (decode maxDepth) text.toList

end Flowline.Json
