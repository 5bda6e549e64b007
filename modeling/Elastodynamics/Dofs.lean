import Elastodynamics.Scalar
/-!
Transfer between the degrees of freedom of single nodes and a stacked vector of all nodes, with node
indices as machine words. Node `i` has the degrees of freedom `3 * i`, `3 * i + 1` and `3 * i + 2`;
these addresses are words too, so they wrap around at `2 ^ 64`.
-/
namespace Elastodynamics.Dofs

/-- The addresses of the degrees of freedom of a node. -/
def addresses (node : UInt64) : List UInt64 := [3 * node, 3 * node + 1, 3 * node + 2]

variable {α : Type}

/-- Reads the degrees of freedom of the given nodes into a local vector with `dim` components. There
is no result if the dimension is not three per node or an address is outside of the vector. -/
def gather (x : Array α) (nodes : List UInt64) (dim : Nat) : Option (List α) :=
  if dim = 3 * nodes.length then
    (nodes.flatMap addresses).mapM fun address => x[address.toNat]?
  else none

variable [Scalar α]

/-- Adds the values to the components with the given addresses, one after the other. -/
def addAll (x : Array α) : List (UInt64 × α) → Option (Array α)
  | [] => some x
  | (address, value) :: l =>
    if address.toNat < x.size then addAll (x.modify address.toNat (· + value)) l else none

/-- Adds a local vector to the degrees of freedom of the given nodes. There is no result if the
dimension is not three per node or an address is outside of the vector. -/
def scatter (l : List α) (x : Array α) (nodes : List UInt64) : Option (Array α) :=
  if l.length = 3 * nodes.length then addAll x ((nodes.flatMap addresses).zip l) else none

end Elastodynamics.Dofs
