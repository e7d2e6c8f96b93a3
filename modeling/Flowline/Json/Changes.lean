import Flowline.Json.Shape

/-!
# Changes to a record

A value is converted into a record by its members, each of which changes the field that its key
names. Members whose keys name no field are passed over.
-/

namespace Flowline

namespace Json

/-- What a member changes about a record, if its value can be read. -/
abbrev Change (σ : Type) := String × Except Misfit (σ → σ)

/-- Makes changes in order, given the keys of earlier ones. A key that is there twice is refused. -/
def makeChanges {σ : Type} (seen : List String) (x : σ) : List (Change σ) → Except Misfit σ
  | [] => .ok x
  | (key, change) :: cs =>
    if key ∈ seen then .error (.duplicateField key)
    else do
      let f ← change
      makeChanges (key :: seen) (f x) cs

/-- The members of a value that is an object. -/
def members : Json → Members
  | .object ms => ms
  | _ => []

/-- The keys of the fields of a record. -/
def Record.keys {σ : Type} (r : Record σ) : List String := r.fields.map Field.key

end Json

/-- The members whose keys are among some. -/
def Members.only (ms : Members) (keys : List String) : Members := ms.filter fun m => m.1 ∈ keys

end Flowline
