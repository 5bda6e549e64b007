import Elastodynamics.Proofs.Sparse.Rows
/-!
Expansion of block-sparse matrices to compressed sparse rows. The traversal of the full matrix
builds valid data for every matrix, whatever rows of its pattern are empty, and an entry is the same
whether it is read from the matrix, from its block, from the dense form or from the compressed rows.
-/
namespace Elastodynamics.Sparse.BlockMatrix

variable {α : Type}

/-! ### The traversal -/

/-- The entries of the full matrix with their rows and columns, in the order in which they are
visited: block row by block row, in each of them scalar row by scalar row, and in each of these
block by block. -/
def expandedEntries (A : BlockMatrix α) : List (Nat × Nat × α) :=
  A.blockRows.zipIdx.flatMap fun (row, i) => (List.finRange 3).flatMap fun p =>
    (scalarRow row p).map fun (c, x) => (3 * i + p.val, c, x)

/-- The entries are visited row after row. -/
theorem expandedEntries_eq (A : BlockMatrix α) :
    A.expandedEntries = Csr.entriesFrom 0 A.scalarRows := by
  have hRows (rows : List (List (Nat × Mat3 α))) (first : Nat) :
      ((rows.zipIdx first).flatMap fun (row, i) => (List.finRange 3).flatMap fun p =>
        (scalarRow row p).map fun (c, x) => (3 * i + p.val, c, x)) =
      Csr.entriesFrom (3 * first)
        (rows.flatMap fun row => (List.finRange 3).map (scalarRow row)) := by
    induction rows generalizing first with
    | nil => rfl
    | cons row rows ih =>
        rw [List.zipIdx_cons, List.flatMap_cons, ih, List.flatMap_cons, Csr.entriesFrom_append]
        rfl
  exact hRows A.blockRows 0

/-- New values are written in the order in which the traversal visits them. -/
theorem refresh_eq_overwrite (A : BlockMatrix α) (csr : Csr α) : csr.refresh A.scalarRows =
    { csr with values := Csr.overwrite csr.values (A.expandedEntries.map fun e => e.2.2) } := by
  rw [expandedEntries_eq, Csr.map_values_entriesFrom, Csr.refresh]

/-! ### Valid data -/

theorem mem_scalarRows_iff {A : BlockMatrix α} {r c : Nat} {x : α} :
    (c, x) ∈ scalarRow (A.blockRow (r / 3)) (Dense.component r) ↔
      ∃ B, A.block? (r / 3) (c / 3) = some B ∧
        B.get (Dense.component r) (Dense.component c) = x := by
  simp only [mem_scalarRow, mem_blockRow]

/-- Rows and columns of a block that is found lie in the matrix. -/
theorem lt_dim_of_block? {A : BlockMatrix α} {r c : Nat} {B : Mat3 α}
    (h : A.block? (r / 3) (c / 3) = some B) : r < A.dim ∧ c < A.dim := by
  obtain ⟨k, hFind, _⟩ := Option.map_eq_some_iff.mp h
  have hStored : A.pattern.contains (r / 3) (c / 3) = true := by
    rw [Pattern.contains, hFind]
    rfl
  have hLt : r / 3 < A.size ∧ c / 3 < A.size := Pattern.lt_size_of_contains hStored
  simp only [dim]
  omega

/-- The rows of every matrix give valid data. -/
theorem valid_toCsr (A : BlockMatrix α) : A.toCsr.Valid := by
  refine Csr.valid_ofRows (fun row hRow => ?_) fun row hRow e he => ?_
  · rw [scalarRows_eq] at hRow
    obtain ⟨r, _, rfl⟩ := List.mem_map.mp hRow
    refine pairwise_scalarRow ?_ _
    rw [map_fst_blockRow]
    exact A.pattern.pairwise_fullRow _
  · rw [length_scalarRows]
    rw [scalarRows_eq] at hRow
    obtain ⟨r, _, rfl⟩ := List.mem_map.mp hRow
    obtain ⟨B, hBlock, _⟩ := mem_scalarRows_iff.mp he
    exact (lt_dim_of_block? hBlock).2

/-- The traversal builds the compressed rows, and they are accepted as valid. -/
theorem build?_expandedEntries (A : BlockMatrix α) :
    Csr.build? A.dim A.expandedEntries = some A.toCsr := by
  rw [← length_scalarRows, expandedEntries_eq]
  exact Csr.build?_entriesFrom A.valid_toCsr

/-! ### Ways to read an entry -/

/-- An entry of the compressed rows is the entry of its block. -/
theorem find?_toCsr (A : BlockMatrix α) {r : Nat} (hr : r < A.dim) (c : Nat) :
    A.toCsr.find? r c = (A.block? (r / 3) (c / 3)).map fun B =>
      B.get (Dense.component r) (Dense.component c) := by
  have hLength : r < A.scalarRows.length := A.length_scalarRows.symm ▸ hr
  have hRow : A.toCsr.row r = scalarRow (A.blockRow (r / 3)) (Dense.component r) := by
    rw [toCsr, Csr.row_ofRows hLength]
    simp [scalarRows_eq]
  have hIncreasing := A.valid_toCsr.increasing r hLength
  rw [hRow] at hIncreasing
  apply Option.ext
  intro x
  rw [Csr.find?, hRow, lookup_eq_some_iff_mem hIncreasing, mem_scalarRows_iff,
    Option.map_eq_some_iff]

theorem isSome_block? (A : BlockMatrix α) (i j : Nat) :
    (A.block? i j).isSome = A.pattern.contains i j := by
  rw [block?, Option.isSome_map, Pattern.contains]

variable [Scalar α]

/-- An entry of the matrix is the entry of its block, and zero where there is none. -/
theorem entry?_eq (A : BlockMatrix α) {r c : Nat} (hr : r < A.dim) (hc : c < A.dim) :
    entry? A r c = some (((A.block? (r / 3) (c / 3)).map fun B =>
      B.get (Dense.component r) (Dense.component c)).getD 0) := by
  unfold entry?
  rw [if_pos ⟨hr, hc⟩]
  cases A.block? (r / 3) (c / 3) <;> rfl

/-- An entry of the dense form is the entry of its block, and zero where there is none. -/
theorem get_toDense_eq (A : BlockMatrix α) (r c : Fin A.dim) :
    A.toDense.get r c = ((A.block? (r.val / 3) (c.val / 3)).map fun B =>
      B.get (Dense.component r.val) (Dense.component c.val)).getD 0 := by
  rw [get_toDense, block]
  cases A.block? (r.val / 3) (c.val / 3) with
  | none => exact Mat3.get_ofFn (fun _ _ => 0) _ _
  | some B => rfl

/-- The expansion of a matrix is valid and agrees with every other way to read it. For every matrix
over any pattern, with empty block rows in any place, the traversal builds the compressed rows,
which are accepted as valid: there is one offset more than scalar rows, the offsets begin at zero,
never decrease and end at the number of entries, and the columns of each row are strictly increasing
and in the matrix. An entry of the matrix, of its block, of the dense form and of the compressed
rows are the same, where one that is missing counts as zero, and an entry is present in the
compressed rows exactly if the pattern has its block or the mirrored one. -/
theorem expansion_agrees (A : BlockMatrix α) :
    (Csr.build? A.dim A.expandedEntries = some A.toCsr ∧
      A.toCsr.size = 3 * A.pattern.size ∧
      A.toCsr.offsets.length = 3 * A.pattern.size + 1 ∧
      A.toCsr.offsets.head? = some 0 ∧
      A.toCsr.offsets.Pairwise (· ≤ ·) ∧
      A.toCsr.offsets.getLast? = some A.toCsr.columns.length ∧
      A.toCsr.values.length = A.toCsr.columns.length ∧
      (∀ r < A.dim, ((A.toCsr.row r).map Prod.fst).Pairwise (· < ·)) ∧
      ∀ c ∈ A.toCsr.columns, c < A.dim) ∧
    ∀ r c : Fin A.dim,
      entry? A r c = some (A.toDense.get r c) ∧
      ((A.block? (r.val / 3) (c.val / 3)).map fun B =>
        B.get (Dense.component r.val) (Dense.component c.val)).getD 0 = A.toDense.get r c ∧
      (A.toCsr.find? r c).getD 0 = A.toDense.get r c ∧
      ((A.toCsr.find? r c).isSome = true ↔
        (r.val / 3, c.val / 3) ∈ A.pattern.entries ∨
          (c.val / 3, r.val / 3) ∈ A.pattern.entries) := by
  have hValid := A.valid_toCsr
  have hSize : A.toCsr.size = A.dim := A.length_scalarRows
  refine ⟨⟨A.build?_expandedEntries, hSize, hValid.length_offsets.trans (congrArg (· + 1) hSize),
    hValid.first, hValid.monotone, hValid.last, hValid.length_values, hSize ▸ hValid.increasing,
    hSize ▸ hValid.bounded⟩, fun r c => ?_⟩
  refine ⟨?_, (A.get_toDense_eq r c).symm, ?_, ?_⟩
  · rw [A.entry?_eq r.isLt c.isLt, get_toDense_eq]
  · rw [A.find?_toCsr r.isLt, get_toDense_eq]
  · rw [A.find?_toCsr r.isLt, Option.isSome_map, isSome_block?, Pattern.contains_iff_mem]

end Elastodynamics.Sparse.BlockMatrix
