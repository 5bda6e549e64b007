/-!
The errors of block-sparse patterns and matrices.
-/
namespace Elastodynamics.Sparse

/-- What an operation on block-sparse data rejects. -/
inductive Error where
  | unallocatedBlock (row col : Nat)
  | indexOutOfBounds (row col blockRows : Nat)
  /-- A dense matrix does not have the expected numbers of rows and columns. -/
  | sizeMismatch (expected actual : Nat × Nat)
  /-- Compressed data does not describe a pattern. -/
  | invalidPattern (reason : String)
deriving Repr, DecidableEq

def Error.message : Error → String
  | .unallocatedBlock row col =>
    s!"Block ({row}, {col}) is not allocated in the sparsity pattern."
  | .indexOutOfBounds row col blockRows =>
    s!"Block ({row}, {col}) is out of bounds for a matrix with {blockRows} block rows."
  | .sizeMismatch (m, n) (rows, cols) => s!"Expected a {m}x{n} matrix, got {rows}x{cols}."
  | .invalidPattern reason => "Invalid block sparsity pattern: " ++ reason

end Elastodynamics.Sparse
