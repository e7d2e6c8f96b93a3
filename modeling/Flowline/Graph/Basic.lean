import Flowline.Graph.Connections
import Flowline.Uuid

/-!
# Graphs

The document that a workflow is lowered to: a flat list of nodes with their places on a canvas,
and the connections between them by name. It is written as an object with six members, and read
back from one.
-/

namespace Flowline

/-- A place on the canvas. -/
structure Position where
  x : Int
  y : Int
  deriving DecidableEq, Repr

namespace Position

/-- The value that a position is written as. -/
def toJson (p : Position) : Json := .array [.int p.x, .int p.y]

/-- A coordinate, a whole number of sixty-four bits with a sign. -/
def coordinate : Json.Decoder Int := .int (-9223372036854775808) 9223372036854775807 "i64"

/-- A position as a record. -/
def record : Json.Record Position where
  name := "tuple struct Position"
  blank := ⟨0, 0⟩
  fields := [
    .of "x" .required coordinate fun p v => { p with x := v },
    .of "y" .required coordinate fun p v => { p with y := v }]

/-- Reads a position, which is always an array. -/
def decode : Json.Decoder Position := record.decodeArray

end Position

/-- An object whose members are kept as they are. -/
def decodeMembers : Json.Decoder Members :=
  .fold "a map" (fun budget => Json.putMember (Json.readValue budget)) []

/-- A node. -/
structure Node where
  id : Uuid
  name : String
  type : String
  typeVersion : Nat
  position : Position
  parameters : Members
  deriving DecidableEq, Repr

namespace Node

/-- The value that a node is written as. -/
def toJson (n : Node) : Json :=
  .object [("id", .string n.id.text), ("name", .string n.name), ("type", .string n.type),
    ("typeVersion", .int n.typeVersion), ("position", n.position.toJson),
    ("parameters", .object n.parameters)]

/-- A node as a record. -/
def record : Json.Record Node where
  name := "struct TargetNode"
  blank := ⟨.ofSeed 0, "", "", 0, ⟨0, 0⟩, []⟩
  fields := [
    .of "id" .required Uuid.decode fun n x => { n with id := x },
    .of "name" .required (.string "a string") fun n x => { n with name := x },
    .of "type" .required (.string "a string") fun n x => { n with type := x },
    .of "typeVersion" .required (.smallCount "u32") fun n x => { n with typeVersion := x },
    .of "position" .required Position.decode fun n x => { n with position := x },
    .of "parameters" .required decodeMembers fun n x => { n with parameters := x }]

end Node

/-- A graph. -/
structure Graph where
  name : String
  nodes : List Node := []
  connections : Connections := {}
  settings : Members := []
  staticData : Option Json := none
  tags : List String := []
  deriving DecidableEq, Repr

namespace Graph

/-- The first node with a name. -/
def node? (g : Graph) (name : String) : Option Node := g.nodes.find? fun n => n.name == name

/-- The names of the nodes in order. -/
def nodeNames (g : Graph) : List String := g.nodes.map Node.name

/-- The value that a graph is written as. -/
def toJson (g : Graph) : Json :=
  .object [("name", .string g.name), ("nodes", .array (g.nodes.map Node.toJson)),
    ("connections", g.connections.toJson), ("settings", .object g.settings),
    ("staticData", g.staticData.getD .null), ("tags", .array (g.tags.map .string))]

/-- A graph as a record. -/
def record : Json.Record Graph where
  name := "struct TargetGraph"
  blank := { name := "" }
  fields := [
    .of "name" .required (.string "a string") fun g x => { g with name := x },
    .of "nodes" .required (.list Node.record.decode) fun g x => { g with nodes := x },
    .of "connections" .required Connections.decode fun g x => { g with connections := x },
    .of "settings" .required decodeMembers fun g x => { g with settings := x },
    .of "staticData" .optional (.option .value) fun g x => { g with staticData := x },
    .of "tags" .required (.list (.string "a string")) fun g x => { g with tags := x }]

end Graph

end Flowline
