import Flowline.Binary64.Basic

/-!
# JSON values

A JSON value as a tree. An object is a list of members in the order in which they were first
written; a key that is written again keeps its place and takes the new value, which is what
`Members.put` says. Whole numbers and doubles are kept apart, since they are written differently.
-/

namespace Flowline

/-- A JSON value. -/
inductive Json where
  | null
  | bool (value : Bool)
  | int (value : Int)
  | double (value : Binary64)
  | string (text : String)
  | array (items : List Json)
  | object (members : List (String × Json))
  deriving Repr, Inhabited

/-- The members of an object, in order. -/
abbrev Members := List (String × Json)

namespace Members

/-- The value of the first member with a key. -/
def get? : Members → String → Option Json
  | [], _ => none
  | (k, v) :: ms, key => if k = key then some v else get? ms key

/-- The keys in order. -/
def keys (ms : Members) : List String := ms.map Prod.fst

/-- Sets the value of a key: in place if the key is there, else at the end. -/
def put : Members → String → Json → Members
  | [], key, value => [(key, value)]
  | (k, v) :: ms, key, value => if k = key then (k, value) :: ms else (k, v) :: put ms key value

/-- The members that remain when members are set one after the other. -/
def ofPairs (pairs : Members) : Members := pairs.foldl (fun ms p => ms.put p.1 p.2) []

@[simp] theorem get?_put_self (ms : Members) (key : String) (value : Json) :
    (ms.put key value).get? key = some value := by
  induction ms with
  | nil => simp [put, get?]
  | cons m ms ih => by_cases h : m.1 = key <;> simp [put, get?, h, ih]

theorem get?_put_of_ne (ms : Members) {key other : String} (value : Json) (h : key ≠ other) :
    (ms.put key value).get? other = ms.get? other := by
  induction ms with
  | nil => simp [put, get?, h]
  | cons m ms ih =>
    by_cases hk : m.1 = key
    · subst hk
      simp [put, get?, h]
    · simp [put, get?, hk, ih]

theorem keys_put (ms : Members) (key : String) (value : Json) :
    (ms.put key value).keys = if key ∈ ms.keys then ms.keys else ms.keys ++ [key] := by
  induction ms with
  | nil => simp [put, keys]
  | cons m ms ih =>
    by_cases hk : m.1 = key
    · simp [put, keys, hk]
    · have hk' : ¬ key = m.1 := fun h => hk h.symm
      simp only [keys] at ih
      by_cases hm : key ∈ ms.map Prod.fst
      · simp [put, keys, hk, hm, ih]
      · simp [put, keys, hk, hk', hm, ih]

end Members

namespace Json

mutual

/-- How deep arrays and objects are nested. -/
def depth : Json → Nat
  | .array items => depthItems items + 1
  | .object members => depthMembers members + 1
  | _ => 0

/-- The greatest depth among items. -/
def depthItems : List Json → Nat
  | [] => 0
  | j :: js => max (depth j) (depthItems js)

/-- The greatest depth among the values of members. -/
def depthMembers : List (String × Json) → Nat
  | [] => 0
  | (_, j) :: ms => max (depth j) (depthMembers ms)

end

mutual

/-- Whether two values are the same tree. -/
def same : Json → Json → Bool
  | .null, .null => true
  | .bool a, .bool b => a == b
  | .int a, .int b => a == b
  | .double a, .double b => a == b
  | .string a, .string b => a == b
  | .array a, .array b => sameItems a b
  | .object a, .object b => sameMembers a b
  | _, _ => false

/-- Whether two lists of values are the same. -/
def sameItems : List Json → List Json → Bool
  | [], [] => true
  | a :: as, b :: bs => same a b && sameItems as bs
  | _, _ => false

/-- Whether two lists of members are the same, in keys, values and order. -/
def sameMembers : List (String × Json) → List (String × Json) → Bool
  | [], [] => true
  | (k, a) :: as, (l, b) :: bs => k == l && same a b && sameMembers as bs
  | _, _ => false

end

mutual

theorem same_iff : (a b : Json) → (same a b = true ↔ a = b)
  | .array a, b => by cases b <;> simp [same, sameItems_iff a]
  | .object a, b => by cases b <;> simp [same, sameMembers_iff a]
  | .null, b => by cases b <;> simp [same]
  | .bool _, b => by cases b <;> simp [same]
  | .int _, b => by cases b <;> simp [same]
  | .double _, b => by cases b <;> simp [same]
  | .string _, b => by cases b <;> simp [same]

theorem sameItems_iff : (a b : List Json) → (sameItems a b = true ↔ a = b)
  | [], b => by cases b <;> simp [sameItems]
  | x :: xs, b => by cases b <;> simp [sameItems, same_iff x, sameItems_iff xs]

theorem sameMembers_iff : (a b : List (String × Json)) → (sameMembers a b = true ↔ a = b)
  | [], b => by cases b <;> simp [sameMembers]
  | (k, x) :: xs, b => by
    cases b with
    | nil => simp [sameMembers]
    | cons m ms => cases m; simp [sameMembers, same_iff x, sameMembers_iff xs, and_assoc]

end

instance : DecidableEq Json := fun a b => decidable_of_iff _ (same_iff a b)

/-- What a value is called when it is not the object that was expected. -/
def kindName : Json → String
  | .null => "null"
  | .bool _ => "boolean"
  | .int _ => "number"
  | .double _ => "number"
  | .string _ => "string"
  | .array _ => "array"
  | .object _ => "object"

end Json

end Flowline
