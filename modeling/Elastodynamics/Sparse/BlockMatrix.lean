import Elastodynamics.Algebra.Dense
import Elastodynamics.Algebra.Stacked
import Elastodynamics.Sparse.Csr
import Elastodynamics.Sparse.Pattern
/-!
Symmetric matrices made of blocks of size three, of which only the upper block triangle is stored.
The pattern is fixed when a matrix is made, and additions outside of it are rejected. An expanded
copy in compressed sparse rows is kept beside the blocks; `stale` says that the blocks have changed
since it was made.
-/
namespace Elastodynamics.Sparse

structure BlockMatrix (α : Type) where
  pattern : Pattern
  /-- The stored blocks, in the order of the pattern. -/
  blocks : Vector (Mat3 α) pattern.entries.size
  /-- The expanded matrix as it was last assembled. -/
  csr : Option (Csr α)
  /-- Whether blocks may have changed since the last assembly. -/
  stale : Bool

namespace BlockMatrix

variable {α : Type} [Scalar α]

def ofPattern (P : Pattern) : BlockMatrix α where
  pattern := P
  blocks := Vector.replicate P.entries.size 0
  csr := none
  stale := true

def size (A : BlockMatrix α) : Nat := A.pattern.size

/-- The number of scalar rows, and of scalar columns. -/
def dim (A : BlockMatrix α) : Nat := 3 * A.size

/-- The stored blocks with their coordinates, in storage order. -/
def stored (A : BlockMatrix α) : List (Coord × Mat3 α) :=
  A.pattern.entries.toList.zip A.blocks.toList

/-! ### Changes -/

def setZero (A : BlockMatrix α) : BlockMatrix α :=
  { A with blocks := Vector.replicate _ 0, stale := true }

/-- The storage index of the block at `(i, j)`, or why there is none. -/
def storageIndex (A : BlockMatrix α) (i j : Nat) : Except Error (Fin A.pattern.entries.size) :=
  if i < A.size ∧ j < A.size then
    match A.pattern.find? i j with
    | some k => .ok k
    | none => .error (.unallocatedBlock (min i j) (max i j))
  else .error (.indexOutOfBounds i j A.size)

/-- The part of a block at `(i, j)` that is added to the stored block: itself above the diagonal,
its transpose below, its symmetric part on the diagonal. -/
def contribution (i j : Nat) (B : Mat3 α) : Mat3 α :=
  if i < j then B else if j < i then B.transpose else B.symmetricPart

def addStored (A : BlockMatrix α) (k : Fin A.pattern.entries.size) (B : Mat3 α) : BlockMatrix α :=
  { A with blocks := A.blocks.set k (A.blocks.get k + B) }

/-- Adds a block at `(i, j)`, and with it the transposed block at `(j, i)`. On the diagonal the
symmetric part of the block is added. -/
def addToBlock (A : BlockMatrix α) (i j : Nat) (B : Mat3 α) : Except Error (BlockMatrix α) := do
  let k ← A.storageIndex i j
  return { A.addStored k (contribution i j B) with stale := true }

/-- Whether every listed block is stored: the first one that is not is an error. -/
def checkStored (A : BlockMatrix α) : List Coord → Except Error Unit
  | [] => .ok ()
  | (i, j) :: l => do
    let _ ← A.storageIndex i j
    A.checkStored l

/-- Adds a list of blocks, of which those below the diagonal are left out. -/
def addUpper (A : BlockMatrix α) : List (Coord × Mat3 α) → Except Error (BlockMatrix α)
  | [] => .ok A
  | ((i, j), B) :: l =>
    if j < i then A.addUpper l
    else do
      let k ← A.storageIndex i j
      (A.addStored k (contribution i j B)).addUpper l

/-- The blocks of a dense matrix, at the places that the listed block indices give them. -/
def placedBlocks {m n : Nat} (indices : List Nat) (L : Dense α m n) : List (Coord × Mat3 α) :=
  indices.zipIdx.flatMap fun (i, a) => indices.zipIdx.map fun (j, b) => ((i, j), L.blockAt a b)

/-- Adds a dense symmetric matrix whose node block `(a, b)` belongs to block
`(indices[a], indices[b])`. Of its blocks only those in the upper triangle are read. Either every
block is added or, if one of them is not stored, none is. -/
def addToBlocks {m n : Nat} (A : BlockMatrix α) (indices : List Nat) (L : Dense α m n) :
    Except Error (BlockMatrix α) := do
  let expected := (3 * indices.length, 3 * indices.length)
  if (m, n) ≠ expected then throw (.sizeMismatch expected (m, n))
  A.checkStored (Pattern.couplings indices)
  let A' ← A.addUpper (placedBlocks indices L)
  return { A' with stale := true }

/-! ### Reading -/

/-- The block at `(i, j)`, if it or the block at `(j, i)` is stored. -/
def block? (A : BlockMatrix α) (i j : Nat) : Option (Mat3 α) :=
  (A.pattern.find? i j).map fun k => if i ≤ j then A.blocks.get k else (A.blocks.get k).transpose

/-- The scalar entry in row `r` and column `c`, zero outside of the stored blocks. -/
def entry? (A : BlockMatrix α) (r c : Nat) : Option α :=
  if r < A.dim ∧ c < A.dim then
    match A.block? (r / 3) (c / 3) with
    | some B => some (B.get ⟨r % 3, by omega⟩ ⟨c % 3, by omega⟩)
    | none => some 0
  else none

def toDense (A : BlockMatrix α) : Dense α A.dim A.dim :=
  A.stored.foldl (fun D ((i, j), B) =>
    let D := D.setBlock i j B
    if i = j then D else D.setBlock j i B.transpose) (Dense.repeated 0)

/-- Whether every stored diagonal block is symmetric up to the given absolute tolerance. The other
blocks have no second copy to differ from. -/
def isSymmetric (A : BlockMatrix α) (tol : α) : Bool :=
  A.stored.all fun ((i, j), B) => i != j || Scalar.le (B - B.transpose).amax tol

/-- The product with a vector, which must have as many components as the matrix has columns. -/
def mulVector (A : BlockMatrix α) (x : Array α) : Option (Array α) :=
  if x.size = A.dim then
    some <| A.stored.foldl (fun y ((i, j), B) =>
      let y := Stacked.addNode y i (B.mulVec (Stacked.node x j))
      if i = j then y else Stacked.addNode y j (B.transpose.mulVec (Stacked.node x i)))
      (Array.replicate A.dim 0)
  else none

/-! ### Expansion to compressed sparse rows -/

/-- The blocks of the full matrix below the diagonal: the stored blocks above it, transposed. -/
def lowerBlocks (A : BlockMatrix α) : List (Coord × Mat3 α) :=
  (A.stored.filter fun e => e.1.1 != e.1.2).map fun ((i, j), B) => ((j, i), B.transpose)

/-- The blocks of each full block row with their block columns: first the transposed ones, which
lie left of the diagonal, then the stored blocks of the row. -/
def blockRows (A : BlockMatrix α) : List (List (Nat × Mat3 α)) :=
  let lower := bucket A.size (fun e => e.1.1) A.lowerBlocks
  let upper := bucket A.size (fun e => e.1.1) A.stored
  lower.toList.zipWith (fun l u => (l ++ u).map fun e => (e.1.2, e.2)) upper.toList

/-- Row `p` of a full block row: scalar columns and values. -/
def scalarRow (row : List (Nat × Mat3 α)) (p : Fin 3) : List (Nat × α) :=
  row.flatMap fun (j, B) => (List.finRange 3).map fun q => (3 * j + q.val, B.get p q)

/-- The rows of the full matrix: scalar columns and values. -/
def scalarRows (A : BlockMatrix α) : List (List (Nat × α)) :=
  A.blockRows.flatMap fun row => (List.finRange 3).map (scalarRow row)

/-- The full matrix in compressed sparse rows. -/
def toCsr (A : BlockMatrix α) : Csr α := .ofRows A.scalarRows

/-- Whether the expanded copy reflects every change made so far. -/
def isAssembled (A : BlockMatrix α) : Bool := !A.stale && A.csr.isSome

/-- Brings the expanded copy up to date. A copy that exists keeps its layout, since the pattern
never changes, and only gets new values. -/
def assemble (A : BlockMatrix α) : BlockMatrix α :=
  if A.isAssembled then A
  else
    match A.csr with
    | some csr => { A with csr := some (csr.refresh A.scalarRows), stale := false }
    | none => { A with csr := some A.toCsr, stale := false }

/-- The expanded copy, if it is up to date. -/
def assembledCsr (A : BlockMatrix α) : Option (Csr α) := if A.isAssembled then A.csr else none

end BlockMatrix

end Elastodynamics.Sparse
