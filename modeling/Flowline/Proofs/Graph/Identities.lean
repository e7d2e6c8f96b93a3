import Flowline.Proofs.Lowering.Layout

/-!
# Fresh identities

Lowering takes identities from a supply, so two graphs of one workflow differ in their identities
and in nothing else. `Graph.identify` takes a graph to the one that another supply gives.
-/

namespace Flowline

/-- The graph whose nodes have identities from a supply. -/
def Graph.identify (g : Graph) (ids : Nat → Uuid) : Graph :=
  { g with nodes := g.nodes.mapIdx fun i n => { n with id := ids i } }

namespace Workflow

theorem identify_graph (w : Workflow) (ids ids' : Nat → Uuid) :
    (w.graph ids).identify ids' = w.graph ids' := by
  simp only [Graph.identify, graph, List.mapIdx_mapIdx]
  rfl

/-- Identities do not decide whether a workflow can be lowered, and with others it is lowered to
the same graph up to identities. -/
theorem lower_identify (w : Workflow) (policy : CollisionPolicy) (ids ids' : Nat → Uuid) :
    (w.lower policy ids').outcome = (w.lower policy ids).outcome.map (·.identify ids') := by
  cases policy with
  | overwrite =>
    rw [lower_outcome_overwrite, lower_outcome_overwrite, Except.map, identify_graph]
  | reject =>
    rw [lower_outcome_reject, lower_outcome_reject]
    split
    · rw [Except.map, identify_graph]
    · rfl

theorem notices_lower (w : Workflow) (policy : CollisionPolicy) (ids ids' : Nat → Uuid) :
    (w.lower policy ids').notices = (w.lower policy ids).notices := by
  rw [lower, lower]
  cases chainConnections policy w.emit with
  | error issues => rfl
  | ok projected => rfl

end Workflow

end Flowline
