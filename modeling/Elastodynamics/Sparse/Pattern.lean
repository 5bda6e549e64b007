import Elastodynamics.Failure
import Elastodynamics.Sparse.Bucket
import Elastodynamics.Sparse.Coord
import Elastodynamics.Sparse.Error
/-!
Sparsity patterns of symmetric block matrices. A pattern is the set of stored blocks of the upper
block triangle, kept as the strictly increasing list of their coordinates; the place of a coordinate
in that list is the storage index of its block. Since the list is canonical, patterns with the same
blocks are equal.
-/
namespace Elastodynamics.Sparse

/-- The stored blocks of a symmetric block matrix. -/
structure Pattern where
  /-- The number of block rows, and of block columns. -/
  size : Nat
  /-- The coordinates of the stored blocks in row-major order. -/
  entries : Array Coord
  sorted : entries.toList.Pairwise fun a b => a.before b = true
  bounded : ∀ e ∈ entries.toList, e.1 ≤ e.2 ∧ e.2 < size
deriving DecidableEq

namespace Pattern

def empty (size : Nat) : Pattern where
  size := size
  entries := #[]
  sorted := .nil
  bounded := by simp

/-- Whether a coordinate lies in a matrix with `size` block rows. -/
def inside (size : Nat) (c : Coord) : Bool := c.1 < size && c.2 < size

/-- The pattern of all the given blocks that lie in the matrix. -/
def ofCoords (size : Nat) (coords : List Coord) : Pattern where
  size := size
  entries := (Coord.canonical (coords.filter (inside size))).toArray
  sorted := Coord.pairwise_canonical _
  bounded := by
    intro e he
    obtain ⟨c, hc, rfl⟩ := Coord.mem_canonical.1 he
    have := (List.mem_filter.1 hc).2
    simp only [inside, Bool.and_eq_true, decide_eq_true_eq] at this
    simp only [Coord.upper]
    omega

/-- The pattern of the given blocks. Coordinates may repeat and may lie below the diagonal; the
first one outside of the matrix is an error. -/
def ofEntries (size : Nat) (coords : List Coord) : Except Error Pattern :=
  match coords.find? fun c => !inside size c with
  | some (i, j) => .error (.indexOutOfBounds i j size)
  | none => .ok (ofCoords size coords)

/-- All pairs of an element of a list with itself or a later element. -/
def couplings : List Nat → List Coord
  | [] => []
  | a :: l => (a :: l).map (fun b => (a, b)) ++ couplings l

/-- The pattern that couples every two nodes of a common element. -/
def ofElements (numNodes : Nat) (elements : List (List Nat)) : Except Error Pattern :=
  ofEntries numNodes (elements.flatMap couplings)

/-- Binary search for a coordinate between two places of an increasing list. -/
def search (entries : Array Coord) (c : Coord) (lo hi : Nat) (h : hi ≤ entries.size) :
    Option (Fin entries.size) :=
  if lt : lo < hi then
    have mid_lt : (lo + hi) / 2 < entries.size := by omega
    let e := entries[(lo + hi) / 2]
    if e = c then some ⟨(lo + hi) / 2, mid_lt⟩
    else if e.before c then search entries c ((lo + hi) / 2 + 1) hi h
    else search entries c lo ((lo + hi) / 2) (by omega)
  else none
termination_by hi - lo

/-- The storage index of the block at `(i, j)` or, since only one of them is stored, at `(j, i)`. -/
def find? (P : Pattern) (i j : Nat) : Option (Fin P.entries.size) :=
  search P.entries (Coord.upper (i, j)) 0 P.entries.size (Nat.le_refl _)

/-- Whether the block at `(i, j)` or the one at `(j, i)` is stored. -/
def contains (P : Pattern) (i j : Nat) : Bool := (P.find? i j).isSome

/-- The first block of `Q` in row-major order that `P` does not contain. -/
def firstMissing? (P Q : Pattern) : Option Coord :=
  Q.entries.toList.find? fun e => !P.contains e.1 e.2

def isSupersetOf (P Q : Pattern) : Bool := (P.firstMissing? Q).isNone

/-! ### The compressed form -/

/-- The block columns stored in each block row. -/
def rows (P : Pattern) : Array (List Nat) :=
  (bucket P.size Prod.fst P.entries.toList).map fun row => row.map Prod.snd

/-- The block columns stored in block row `i`, if there is such a row. -/
def row? (P : Pattern) (i : Nat) : Option (List Nat) := P.rows[i]?

/-- The storage index of the first block of each row, followed by the number of blocks. -/
def offsets (P : Pattern) : List Nat := offsetsFrom 0 (P.rows.toList.map List.length)

/-- The block columns of all stored blocks in storage order. -/
def columns (P : Pattern) : List Nat := P.entries.toList.map Prod.snd

/-- Whether every element is below its successor. -/
def increasing : List Nat → Bool
  | a :: b :: l => a < b && increasing (b :: l)
  | _ => true

/-- The coordinates of the rows from row `i` on, given the offset of each of them and of the end.
Rows are cut out of the columns before they are looked at, and an offset behind the last column
leaves nothing to cut. -/
def decodeRows (size : Nat) (columns : List Nat) :
    Nat → List Nat → Except (Failure Error) (List Coord)
  | i, first :: last :: offsets => do
    if last < first then
      throw (.rejected (.invalidPattern "offsets must be monotonically increasing"))
    if columns.length < last then throw .stuck
    let row := (columns.drop first).take (last - first)
    if row.any fun j => j < i || size ≤ j then
      throw (.rejected (.invalidPattern
        "column indices must lie in the upper triangle and within bounds"))
    if !increasing row then
      throw (.rejected (.invalidPattern "column indices must be sorted and unique"))
    let rest ← decodeRows size columns (i + 1) (last :: offsets)
    return row.map (fun j => (i, j)) ++ rest
  | _, _ => return []

/-- The pattern with the given compressed form: `columns` holds the block columns of all rows, and
row `i` begins at place `offsets[i]` and ends before place `offsets[i + 1]`. -/
def ofCompressed (size : Nat) (offsets columns : List Nat) : Except (Failure Error) Pattern := do
  if offsets.length ≠ size + 1 then
    throw (.rejected (.invalidPattern "offsets must have length block_rows + 1"))
  if offsets.head? ≠ some 0 ∨ offsets.getLast? ≠ some columns.length then
    throw (.rejected (.invalidPattern
      "offsets must start at zero and end at the number of blocks"))
  let coords ← decodeRows size columns 0 offsets
  return ofCoords size coords

/-! ### Memory -/

/-- The largest number of offsets that a vector holds: each of them takes eight bytes, and a vector
takes at most `2 ^ 63 - 1`. -/
def maxOffsets : Nat := (UInt64.size / 2 - 1) / 8

/-- The pattern, if its offsets fit into a vector. Room for them is asked for only after the
coordinates have been checked. -/
def allocate (P : Pattern) : Except (Failure Error) Pattern :=
  if P.size + 1 ≤ maxOffsets then .ok P else .error .stuck

end Pattern

end Elastodynamics.Sparse
