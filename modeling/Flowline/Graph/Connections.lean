import Flowline.Json.Shape

/-!
# Connections

The connections of a graph say, for the name of a node, where its outputs lead. They are an
ordered map: a name that is inserted again keeps its place and takes the new outputs.
-/

namespace Flowline

/-- Where an output leads: a node, the kind of its input, and the number of that input. -/
structure Link where
  node : String
  channel : String
  index : Nat
  deriving DecidableEq, Repr

namespace Link

/-- The value that a link is written as. -/
def toJson (l : Link) : Json :=
  .object [("node", .string l.node), ("type", .string l.channel), ("index", .int l.index)]

/-- A link as a record. -/
def record : Json.Record Link where
  name := "struct ConnectionTarget"
  blank := ⟨"", "", 0⟩
  fields := [
    .of "node" .required (.string "a string") fun l x => { l with node := x },
    .of "type" .required (.string "a string") fun l x => { l with channel := x },
    .of "index" .required (.smallCount "u32") fun l x => { l with index := x }]

end Link

/-- The kind of output that a chain uses. -/
def mainChannel : String := "main"

/-- The main outputs of a node: for each output, the links that leave it. -/
structure Outputs where
  main : List (List Link) := []
  deriving DecidableEq, Repr

namespace Outputs

/-- One output that leads to one node. -/
def single (target : String) : Outputs := ⟨[[⟨target, mainChannel, 0⟩]]⟩

/-- The node that the first link of the first output leads to. -/
def firstTarget? (o : Outputs) : Option String :=
  (o.main.head?.bind List.head?).map Link.node

/-- The value that outputs are written as. -/
def toJson (o : Outputs) : Json :=
  .object [("main", .array (o.main.map fun links => .array (links.map Link.toJson)))]

/-- Outputs as a record. -/
def record : Json.Record Outputs where
  name := "struct NodeOutputs"
  blank := {}
  fields := [
    .of "main" .required (.list (.list Link.record.decode)) fun o x => { o with main := x }]

end Outputs

/-- The outputs of nodes by name, in order. -/
structure Connections where
  entries : List (String × Outputs) := []
  deriving DecidableEq, Repr

namespace Connections

/-- Sets a key in a list of entries: in place if it is there, else at the end. -/
def put (source : String) (outputs : Outputs) : List (String × Outputs) → List (String × Outputs)
  | [] => [(source, outputs)]
  | (k, v) :: es => if k = source then (k, outputs) :: es else (k, v) :: put source outputs es

/-- Sets a key in a list of entries, and returns the outputs that it had. -/
def exchange (source : String) (outputs : Outputs) :
    List (String × Outputs) → Option Outputs × List (String × Outputs)
  | [] => (none, [(source, outputs)])
  | (k, v) :: es =>
    if k = source then (some v, (k, outputs) :: es)
    else
      let (previous, es) := exchange source outputs es
      (previous, (k, v) :: es)

/-- The outputs of a name. -/
def get? (c : Connections) (source : String) : Option Outputs := c.entries.lookup source

/-- Sets the outputs of a name. -/
def insert (c : Connections) (source : String) (outputs : Outputs) : Connections :=
  ⟨put source outputs c.entries⟩

/-- Sets the outputs of a name, and returns the outputs that it had. -/
def replace (c : Connections) (source : String) (outputs : Outputs) :
    Option Outputs × Connections :=
  let (previous, es) := exchange source outputs c.entries
  (previous, ⟨es⟩)

/-- Whether a name has outputs. -/
def contains (c : Connections) (source : String) : Bool := (c.get? source).isSome

/-- The names in order. -/
def keys (c : Connections) : List String := c.entries.map Prod.fst

/-- How many names have outputs. -/
def size (c : Connections) : Nat := c.entries.length

/-- The value that connections are written as. -/
def toJson (c : Connections) : Json := .object (c.entries.map fun e => (e.1, e.2.toJson))

/-- Takes the outputs of a name and inserts them. -/
def takeEntry (budget : Nat) (c : Connections) (source : String) : Json.Reader Connections :=
  fun s => do
    let s ← Json.colon s
    let (outputs, s) ← Outputs.record.decode budget s
    .ok (c.insert source outputs, s)

/-- Reads connections from an object, inserting its members in order. -/
def decode : Json.Decoder Connections :=
  .fold "a map of source node names to outputs" takeEntry {}

theorem lookup_put_self (source : String) (outputs : Outputs) (es : List (String × Outputs)) :
    (put source outputs es).lookup source = some outputs := by
  induction es with
  | nil => simp [put]
  | cons e es ih =>
    rcases e with ⟨k, v⟩
    by_cases h : k = source
    · rw [put, if_pos h, h, List.lookup_cons_self]
    · have hne : (source == k) = false := beq_eq_false_iff_ne.mpr fun he => h he.symm
      rw [put, if_neg h, List.lookup_cons, hne]
      exact ih

theorem lookup_put_of_ne {source other : String} (outputs : Outputs)
    (es : List (String × Outputs)) (h : source ≠ other) :
    (put source outputs es).lookup other = es.lookup other := by
  have hne : (other == source) = false := beq_eq_false_iff_ne.mpr fun he => h he.symm
  induction es with
  | nil => simp [put, List.lookup_cons, hne]
  | cons e es ih =>
    rcases e with ⟨k, v⟩
    by_cases hk : k = source
    · rw [put, if_pos hk, List.lookup_cons, List.lookup_cons, hk, hne]
    · rw [put, if_neg hk, List.lookup_cons, List.lookup_cons, ih]

/-- What an exchange returns is what was there before. -/
theorem exchange_eq (source : String) (outputs : Outputs) (es : List (String × Outputs)) :
    exchange source outputs es = (es.lookup source, put source outputs es) := by
  induction es with
  | nil => rfl
  | cons e es ih =>
    rcases e with ⟨k, v⟩
    by_cases h : k = source
    · rw [exchange, put, if_pos h, if_pos h, h, List.lookup_cons_self]
    · have hne : (source == k) = false := beq_eq_false_iff_ne.mpr fun he => h he.symm
      rw [exchange, put, if_neg h, if_neg h, List.lookup_cons, hne, ih]

theorem replace_eq (c : Connections) (source : String) (outputs : Outputs) :
    c.replace source outputs = (c.get? source, c.insert source outputs) := by
  rw [replace, exchange_eq]
  rfl

theorem get?_insert_self (c : Connections) (source : String) (outputs : Outputs) :
    (c.insert source outputs).get? source = some outputs :=
  lookup_put_self source outputs c.entries

theorem get?_insert_of_ne (c : Connections) {source other : String} (outputs : Outputs)
    (h : source ≠ other) : (c.insert source outputs).get? other = c.get? other :=
  lookup_put_of_ne outputs c.entries h

theorem keys_insert (c : Connections) (source : String) (outputs : Outputs) :
    (c.insert source outputs).keys =
      if source ∈ c.keys then c.keys else c.keys ++ [source] := by
  rcases c with ⟨es⟩
  simp only [insert, keys]
  induction es with
  | nil => simp [put]
  | cons e es ih =>
    by_cases he : e.1 = source
    · simp [put, he]
    · have he' : ¬ source = e.1 := fun h => he h.symm
      by_cases hm : source ∈ es.map Prod.fst
      · simp [put, he, hm, ih]
      · simp [put, he, he', hm, ih]

end Connections

end Flowline
