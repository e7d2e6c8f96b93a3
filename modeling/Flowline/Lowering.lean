import Flowline.Lowering.Chain
import Flowline.Workflow.OfText

/-!
# Lowering

A workflow becomes a graph: its nodes are emitted, given identities in order, and connected. What
is noticed on the way is told whether or not the workflow can be lowered.
-/

namespace Flowline

/-- What lowering gives: a graph or the issues that prevent it, and what was noticed. -/
structure Lowered where
  outcome : Except (List Issue) Graph
  notices : List Notice

namespace Workflow

/-- The graph of a workflow, whose nodes take identities from a supply. -/
def lower (w : Workflow) (policy : CollisionPolicy) (ids : Nat → Uuid) : Lowered :=
  let es := w.emit
  let emission := es.filterMap Emitted.notice
  match chainConnections policy es with
  | .error issues => ⟨.error issues, emission⟩
  | .ok (connections, drops) =>
    ⟨.ok {
      name := w.displayName
      nodes := es.mapIdx fun i e => e.node (ids i)
      connections }, emission ++ drops⟩

/-- The graph of a workflow that may have failed to be read. -/
def lowerRead (w : Except Issue Workflow) (policy : CollisionPolicy) (ids : Nat → Uuid) :
    Lowered :=
  match w with
  | .ok w => w.lower policy ids
  | .error i => ⟨.error [i], []⟩

/-- The graph of a text. -/
def lowerText (text : String) (policy : CollisionPolicy) (ids : Nat → Uuid) : Lowered :=
  lowerRead (parse text) policy ids

/-- The graph of a value. -/
def lowerJson (j : Json) (policy : CollisionPolicy) (ids : Nat → Uuid) : Lowered :=
  lowerRead (ofJson j) policy ids

end Workflow

end Flowline
