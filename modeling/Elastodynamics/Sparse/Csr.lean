import Elastodynamics.Sparse.Bucket
/-!
Compressed sparse rows, the form in which linear solvers take a matrix.
-/
namespace Elastodynamics.Sparse

/-- A square matrix in compressed sparse rows: the entries of row `i` are those at the places from
`offsets[i]` up to `offsets[i + 1]`. -/
structure Csr (α : Type) where
  /-- The number of rows, and of columns. -/
  size : Nat
  offsets : List Nat
  columns : List Nat
  values : List α
deriving Repr, DecidableEq

namespace Csr

variable {α : Type}

/-- The matrix with the given rows of columns and values. -/
def ofRows (rows : List (List (Nat × α))) : Csr α where
  size := rows.length
  offsets := offsetsFrom 0 (rows.map List.length)
  columns := rows.flatten.map Prod.fst
  values := rows.flatten.map Prod.snd

/-- Overwrites the elements of `old` with those of `new`, place by place, as far as both reach. -/
def overwrite : List α → List α → List α
  | _ :: old, x :: new => x :: overwrite old new
  | old, _ => old

/-- Overwrites the values with those of the given rows and keeps the layout. -/
def refresh (A : Csr α) (rows : List (List (Nat × α))) : Csr α :=
  { A with values := overwrite A.values (rows.flatten.map Prod.snd) }

end Csr

end Elastodynamics.Sparse
