import Flowline.Json.Shape

/-!
# Outcomes

How a run ends: it says everything it had to say, or it is cancelled, and how many lines it
appended until then. In JSON an outcome is an object with a tag and a count. The tag may stand
anywhere in the object, so the other members are kept until it is known.
-/

namespace Flowline

/-- How a run ends. -/
inductive Outcome where
  | completed (emitted : Nat)
  | cancelled (emitted : Nat)
  deriving DecidableEq, Repr

namespace Outcome

/-- How many lines were appended. -/
def emitted : Outcome → Nat
  | completed n => n
  | cancelled n => n

/-- Whether everything was said. -/
def isCompleted : Outcome → Bool
  | completed _ => true
  | cancelled _ => false

/-- The tag of an outcome. -/
def tag : Outcome → String
  | completed _ => "completed"
  | cancelled _ => "cancelled"

/-- The value that an outcome is written as. -/
def toJson (o : Outcome) : Json :=
  .object [("outcome", .string o.tag), ("emitted", .int o.emitted)]

/-- The outcomes by tag. -/
def tagged : List (String × (Nat → Outcome)) :=
  [("completed", completed), ("cancelled", cancelled)]

/-- The field that holds the tag. -/
def tagKey : String := "outcome"

/-- The field that holds the count. -/
def countKey : String := "emitted"

/-- The count that a kept value holds. -/
def count (v : Json) : Except Json.Misfit Nat :=
  match v with
  | .int n =>
    if 0 ≤ n ∧ n ≤ Json.maxWhole then .ok n.toNat else .error (.wrongValue n "usize")
  | v => .error (.wrongType v.found "usize")

/-- The outcome of a tag and the kept members of an object. -/
def ofMembers (make : Nat → Outcome) (ms : List (String × Json)) : Except Json.Misfit Outcome :=
  let rec go : Option Nat → List (String × Json) → Except Json.Misfit Outcome
    | some n, [] => .ok (make n)
    | none, [] => .error (.missingField countKey)
    | seen, (k, v) :: ms =>
      if k = countKey then
        if seen.isSome then .error (.duplicateField countKey)
        else do
          let n ← count v
          go (some n) ms
      else go seen ms
  go none ms

/-- The outcome of a tag and the kept items of an array. -/
def ofItems (make : Nat → Outcome) : List Json → Except Json.Misfit Outcome
  | [] =>
    .error (.wrongLength 0
      ("struct variant RunOutcome::" ++
        (match make 0 with | completed _ => "Completed" | cancelled _ => "Cancelled") ++
        " with 1 element"))
  | [v] => do
    let n ← count v
    .ok (make n)
  | v :: vs => do
    let _ ← count v
    .error (.wrongLength (vs.length + 1) "1 element in sequence")

/-- Takes a member: the tag, which may stand there once, or one that is kept. -/
def takeMember (budget : Nat) (state : Option (Nat → Outcome) × List (String × Json))
    (key : String) : Json.Reader (Option (Nat → Outcome) × List (String × Json)) := fun s =>
  if key = tagKey then
    if state.1.isSome then .error (.unfit (.duplicateField tagKey) s)
    else do
      let s ← Json.colon s
      let (make, s) ← Json.variantIdentifier tagged s
      .ok ((some make, state.2), s)
  else do
    let s ← Json.colon s
    let (v, s) ← Json.readValue budget s
    .ok ((state.1, state.2 ++ [(key, v)]), s)

/-- Finishes reading with a result that does not depend on the text. -/
def finish (s : List Char) : Except Json.Misfit Outcome → Except Json.Fault (Outcome × List Char)
  | .ok o => .ok (o, s)
  | .error m => .error (.unfit m s)

/-- Takes an outcome that is written as an object, from behind the opening brace. -/
def ofObject : Json.Decoder Outcome := fun budget s => do
  let ((make, ms), s) ← Json.objectRest (takeMember budget) (none, []) s
  match make with
  | some make => finish s (ofMembers make ms)
  | none => .error (.unfit (.missingField tagKey) s)

/-- Takes an outcome that is written as an array, from behind the opening bracket: the tag and
then the count. -/
def ofArray : Json.Decoder Outcome := fun budget s => do
  let (more, s) ← Json.nextItem true s
  if more then
    let (make, s) ← Json.variantIdentifier tagged s
    let (vs, s) ← Json.items (Json.readValue budget) (s.length + 1) false s
    let s ← Json.closeArray s
    finish s (ofItems make vs)
  else do
    let s ← Json.closeArray s
    .error (.unfit (.missingField tagKey) s)

/-- Reads an outcome. -/
def decode : Json.Decoder Outcome := fun budget s =>
  match Json.skipBlanks s with
  | '[' :: cs => Json.Decoder.deeper '[' ofArray budget cs
  | '\x7b' :: cs => Json.Decoder.deeper '\x7b' ofObject budget cs
  | s => .error (Json.misplaced "internally tagged enum RunOutcome" s)

end Outcome

end Flowline
