import Flowline.Lowering

/-!
# Endpoints

The inner part of the two calls that a host can make on a workflow text, with the limits of the
default configuration: `validate` tells everything there is to say about a text, and `lower` lowers
it unless something is fatal. The outer part is left out. It does no more than to hand the result
over as a value of the host, with null in its place if that conversion fails.
-/

namespace Flowline.Endpoint

/-- Everything that is wrong or questionable about a text. -/
def validate (text : String) : List Issue :=
  match Workflow.parse text with
  | .ok w => w.validate {} .reject
  | .error i => [i]

/-- The graph of a text, or what is fatal about it. -/
def lower (text : String) (allowDuplicateNames : Bool) (ids : Nat → Uuid) :
    Except (List Issue) Graph :=
  let policy : CollisionPolicy := if allowDuplicateNames then .overwrite else .reject
  match Workflow.parse text with
  | .error i => .error [i]
  | .ok w =>
    match Issue.fatal (w.validate {} policy) with
    | [] => (w.lower policy ids).outcome
    | issues => .error issues

end Flowline.Endpoint
