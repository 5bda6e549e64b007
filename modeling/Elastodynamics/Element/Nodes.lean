/-!
The nodes of an element: how many there must be, which ones exist, and that none is used twice.
-/
namespace Elastodynamics

inductive ElementError where
  /-- The element does not have the number of nodes of its shape. -/
  | wrongNodeCount (expected actual : Nat)
  | nodeOutOfBounds (node numNodes : Nat)
  | repeatedNode (node : Nat)
  /-- The reference geometry of the element is close to flat. -/
  | degenerateGeometry
deriving Repr, DecidableEq

def ElementError.message : ElementError → String
  | .wrongNodeCount expected actual => s!"expected {expected} nodes, got {actual}"
  | .nodeOutOfBounds node numNodes =>
    s!"node {node} is out of bounds for a model with {numNodes} nodes"
  | .repeatedNode node => s!"node {node} is referenced more than once"
  | .degenerateGeometry => "reference geometry is degenerate"

/-- Checks nodes one after the other, given those already seen: each must exist and be new. -/
def checkNodes (numNodes : Nat) (seen : List Nat) : List Nat → Except ElementError Unit
  | [] => .ok ()
  | node :: nodes =>
    if numNodes ≤ node then .error (.nodeOutOfBounds node numNodes)
    else if seen.contains node then .error (.repeatedNode node)
    else checkNodes numNodes (node :: seen) nodes

/-- Checks that a list has the expected number of nodes, that all of them exist in a model with
`numNodes` nodes, and that none occurs twice. -/
def validateNodes (nodes : List Nat) (expected numNodes : Nat) : Except ElementError Unit :=
  if nodes.length ≠ expected then .error (.wrongNodeCount expected nodes.length)
  else checkNodes numNodes [] nodes

end Elastodynamics
