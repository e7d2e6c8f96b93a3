import Flowline.Lowering.Emission

/-!
# The chain of a graph

Emitted nodes are connected in a line, each with the next. Connections are kept by name, so two
nodes of one name cannot both keep theirs: this is an error, or the later connection replaces the
earlier one, which is noticed.
-/

namespace Flowline

/-- The edges of a chain of so many nodes, each from a node to the next. -/
def chain (count : Nat) : List (Nat × Nat) := (List.range (count - 1)).map fun i => (i, i + 1)

/-- The nodes whose names were used before, given the names seen so far. -/
def reusedNames : Step.Seen → List Emitted → List Issue
  | _, [] => []
  | seen, e :: es =>
    match seen.lookup e.name with
    | some first => .reusedName e.name first e.path :: reusedNames seen es
    | none => reusedNames ((e.name, e.path) :: seen) es

/-- Adds the connection of an edge, and notices the connection that it replaces. -/
def connect (names : List String) (state : Connections × List Notice) (edge : Nat × Nat) :
    Connections × List Notice :=
  let source := names[edge.1]?.getD ""
  let target := names[edge.2]?.getD ""
  let (previous, connections) := state.1.replace source (.single target)
  let notices := match previous with
    | some dropped => [Notice.droppedConnection source (dropped.firstTarget?.getD "")]
    | none => []
  (connections, state.2 ++ notices)

/-- The connections of a chain, and what is noticed about them. -/
def project (edges : List (Nat × Nat)) (names : List String) : Connections × List Notice :=
  edges.foldl (connect names) ({}, [])

/-- The connections of emitted nodes under a policy, and what is noticed about them. -/
def chainConnections (policy : CollisionPolicy) (es : List Emitted) :
    Except (List Issue) (Connections × List Notice) :=
  let reused := if policy = .reject then reusedNames [] es else []
  if reused = [] then .ok (project (chain es.length) (es.map Emitted.name)) else .error reused

end Flowline
