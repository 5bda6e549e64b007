import Mathlib.Algebra.GroupWithZero.Nat
import Mathlib.Data.List.Basic
import Mathlib.Algebra.BigOperators.Group.List.Basic
import Elastodynamics.Sparse.Csr
/-!
Compressed sparse rows. The data of a matrix is valid if its offsets cut the columns and values into
rows with strictly increasing columns. Rows that are laid out one after the other give valid data,
from which each row is read back, and so does the traversal that appends entry after entry and
closes rows on the way.
-/
namespace Elastodynamics.Sparse

/-! ### Partial sums -/

theorem length_offsetsFrom (start : Nat) (sizes : List Nat) :
    (offsetsFrom start sizes).length = sizes.length + 1 := by
  induction sizes generalizing start with
  | nil => rfl
  | cons n sizes ih => simp [offsetsFrom, ih]

theorem getElem?_offsetsFrom (start : Nat) {sizes : List Nat} {k : Nat} (h : k ≤ sizes.length) :
    (offsetsFrom start sizes)[k]? = some (start + (sizes.take k).sum) := by
  induction sizes generalizing start k with
  | nil => simp_all [offsetsFrom]
  | cons n sizes ih =>
      cases k with
      | zero => simp [offsetsFrom]
      | succ k =>
          simp only [offsetsFrom, List.getElem?_cons_succ, List.take_succ_cons, List.sum_cons]
          rw [ih (start + n) (Nat.le_of_succ_le_succ h), Nat.add_assoc]

theorem le_of_mem_offsetsFrom {start x : Nat} {sizes : List Nat}
    (h : x ∈ offsetsFrom start sizes) : start ≤ x := by
  induction sizes generalizing start with
  | nil => simp_all [offsetsFrom]
  | cons n sizes ih =>
      rcases List.mem_cons.mp h with rfl | h
      · exact Nat.le_refl _
      · exact Nat.le_trans (Nat.le_add_right start n) (ih h)

theorem pairwise_offsetsFrom (start : Nat) (sizes : List Nat) :
    (offsetsFrom start sizes).Pairwise (· ≤ ·) := by
  induction sizes generalizing start with
  | nil => simp [offsetsFrom]
  | cons n sizes ih =>
      refine List.pairwise_cons.mpr ⟨fun x hx => ?_, ih _⟩
      exact Nat.le_trans (Nat.le_add_right start n) (le_of_mem_offsetsFrom hx)

theorem getLast?_offsetsFrom (start : Nat) (sizes : List Nat) :
    (offsetsFrom start sizes).getLast? = some (start + sizes.sum) := by
  have hEnd := getElem?_offsetsFrom start (Nat.le_refl sizes.length)
  rw [List.take_length] at hEnd
  rw [List.getLast?_eq_getElem?, length_offsetsFrom, Nat.add_sub_cancel, hEnd]

namespace Csr

variable {α : Type}

/-! ### Valid data -/

/-- The columns and values of a row: those from its offset up to the next one. -/
def row (M : Csr α) (r : Nat) : List (Nat × α) :=
  match M.offsets[r]?, M.offsets[r + 1]? with
  | some first, some last => ((M.columns.zip M.values).drop first).take (last - first)
  | _, _ => []

/-- The entry in row `r` and column `c`, if the matrix has one. -/
def find? (M : Csr α) (r c : Nat) : Option α := (M.row r).lookup c

/-- Whether data describes a square matrix in compressed sparse rows. -/
structure Valid (M : Csr α) : Prop where
  length_offsets : M.offsets.length = M.size + 1
  first : M.offsets.head? = some 0
  last : M.offsets.getLast? = some M.columns.length
  length_values : M.values.length = M.columns.length
  monotone : M.offsets.Pairwise (· ≤ ·)
  increasing : ∀ r < M.size, ((M.row r).map Prod.fst).Pairwise (· < ·)
  bounded : ∀ c ∈ M.columns, c < M.size

instance (M : Csr α) : Decidable M.Valid :=
  decidable_of_iff
    (M.offsets.length = M.size + 1 ∧ M.offsets.head? = some 0 ∧
      M.offsets.getLast? = some M.columns.length ∧ M.values.length = M.columns.length ∧
      M.offsets.Pairwise (· ≤ ·) ∧ (∀ r < M.size, ((M.row r).map Prod.fst).Pairwise (· < ·)) ∧
      ∀ c ∈ M.columns, c < M.size)
    ⟨fun ⟨h₁, h₂, h₃, h₄, h₅, h₆, h₇⟩ => ⟨h₁, h₂, h₃, h₄, h₅, h₆, h₇⟩,
      fun ⟨h₁, h₂, h₃, h₄, h₅, h₆, h₇⟩ => ⟨h₁, h₂, h₃, h₄, h₅, h₆, h₇⟩⟩

/-- The matrix with the given data, if the data is valid. -/
def ofData? (size : Nat) (offsets columns : List Nat) (values : List α) : Option (Csr α) :=
  let M : Csr α := ⟨size, offsets, columns, values⟩
  if M.Valid then some M else none

/-! ### Rows laid out one after the other -/

theorem row_ofRows {rows : List (List (Nat × α))} {r : Nat} (h : r < rows.length) :
    (ofRows rows).row r = rows[r] := by
  have hFirst : (ofRows rows).offsets[r]? = some ((rows.map List.length).take r).sum := by
    rw [ofRows, getElem?_offsetsFrom 0 (by simpa using Nat.le_of_lt h), Nat.zero_add]
  have hLast : (ofRows rows).offsets[r + 1]? = some ((rows.map List.length).take (r + 1)).sum := by
    rw [ofRows, getElem?_offsetsFrom 0 (by simpa using Nat.succ_le_of_lt h), Nat.zero_add]
  have hEntries : (ofRows rows).columns.zip (ofRows rows).values = rows.flatten :=
    (List.zip_of_prod rfl rfl).symm
  have hSize : ((rows.map List.length).take (r + 1)).sum - ((rows.map List.length).take r).sum =
      rows[r].length := by
    simp [List.take_add_one, h]
  rw [row, hFirst, hLast, hEntries]
  simp only [hSize]
  rw [List.drop_sum_flatten, List.drop_eq_getElem_cons h, List.flatten_cons, List.take_left]

/-- Rows with strictly increasing columns inside of the matrix give valid data. -/
theorem valid_ofRows {rows : List (List (Nat × α))}
    (hIncreasing : ∀ row ∈ rows, (row.map Prod.fst).Pairwise (· < ·))
    (hBounded : ∀ row ∈ rows, ∀ e ∈ row, e.1 < rows.length) : (ofRows rows).Valid where
  length_offsets := by simp [ofRows, length_offsetsFrom]
  first := by cases rows <;> rfl
  last := by
    rw [ofRows, getLast?_offsetsFrom, Nat.zero_add, List.length_map, List.length_flatten]
  length_values := by rw [ofRows, List.length_map, List.length_map]
  monotone := pairwise_offsetsFrom 0 _
  increasing := by
    intro r hr
    rw [row_ofRows hr]
    exact hIncreasing _ (List.getElem_mem hr)
  bounded := by
    intro c hc
    obtain ⟨e, he, rfl⟩ := List.mem_map.mp hc
    obtain ⟨row, hRow, he⟩ := List.mem_flatten.mp he
    exact hBounded row hRow e he

/-! ### Entry after entry -/

/-- Data that is being collected. Rows before `row` are closed: their offsets are known. -/
structure Draft (α : Type) where
  offsets : List Nat
  columns : List Nat
  values : List α
  row : Nat

namespace Draft

/-- No entries, and the offset of the first row. -/
def start : Draft α := ⟨[0], [], [], 0⟩

/-- Closes the present row: the next one begins behind the entries so far. -/
def closeRow (d : Draft α) : Draft α :=
  { d with offsets := d.offsets ++ [d.columns.length], row := d.row + 1 }

/-- Closes rows until the given one is the present one. -/
def closeRows (d : Draft α) (row : Nat) : Draft α :=
  if d.row < row then d.closeRow.closeRows row else d
termination_by row - d.row
decreasing_by
  simp only [closeRow]
  omega

/-- Appends an entry to a row, which is neither closed nor before the present one. -/
def push (d : Draft α) : Nat × Nat × α → Draft α
  | (row, col, x) =>
    let d := d.closeRows row
    { d with columns := d.columns ++ [col], values := d.values ++ [x] }

/-- Closes rows until there is an offset for every row and for the end. -/
def finish (d : Draft α) (size : Nat) : Draft α :=
  if d.offsets.length < size + 1 then
    finish { d with offsets := d.offsets ++ [d.columns.length] } size
  else d
termination_by size + 1 - d.offsets.length
decreasing_by
  simp only [List.length_append, List.length_singleton]
  omega

end Draft

/-- The matrix with the given entries, which come row by row, if they give valid data. -/
def build? (size : Nat) (entries : List (Nat × Nat × α)) : Option (Csr α) :=
  let d := (entries.foldl Draft.push Draft.start).finish size
  ofData? size d.offsets d.columns d.values

/-- The entries of rows, which are counted from `first`, with their rows and columns. -/
def entriesFrom (first : Nat) (rows : List (List (Nat × α))) : List (Nat × Nat × α) :=
  (rows.zipIdx first).flatMap fun (row, r) => row.map fun (c, x) => (r, c, x)

theorem entriesFrom_cons (first : Nat) (row : List (Nat × α)) (rows : List (List (Nat × α))) :
    entriesFrom first (row :: rows) =
      (row.map fun (c, x) => (first, c, x)) ++ entriesFrom (first + 1) rows := by
  rw [entriesFrom, List.zipIdx_cons, List.flatMap_cons]
  rfl

theorem entriesFrom_append (first : Nat) (rows rows' : List (List (Nat × α))) :
    entriesFrom first (rows ++ rows') =
      entriesFrom first rows ++ entriesFrom (first + rows.length) rows' := by
  rw [entriesFrom, List.zipIdx_append, List.flatMap_append]
  rfl

theorem map_values_entriesFrom (first : Nat) (rows : List (List (Nat × α))) :
    (entriesFrom first rows).map (fun e => e.2.2) = rows.flatten.map Prod.snd := by
  induction rows generalizing first with
  | nil => rfl
  | cons row rows ih =>
      rw [entriesFrom_cons, List.map_append, ih, List.map_map, List.flatten_cons, List.map_append]
      rfl

namespace Draft

variable {d : Draft α} {k : Nat}

theorem closeRows_of_le (h : k ≤ d.row) : d.closeRows k = d := by
  rw [closeRows, if_neg (Nat.not_lt_of_le h)]

theorem closeRows_eq_iterate (d : Draft α) (k : Nat) :
    d.closeRows k = closeRow^[k - d.row] d := by
  fun_induction closeRows d k with
  | case1 d h ih =>
      have hCount : k - d.row = k - d.closeRow.row + 1 := by
        simp only [closeRow]
        omega
      rw [hCount, Function.iterate_succ_apply, ih]
  | case2 d h => rw [Nat.sub_eq_zero_of_le (Nat.le_of_not_lt h), Function.iterate_zero_apply]

theorem row_iterate (d : Draft α) (n : Nat) : (closeRow^[n] d).row = d.row + n := by
  induction n with
  | zero => rfl
  | succ n ih => rw [Function.iterate_succ_apply', closeRow, ih, Nat.add_assoc]

theorem row_closeRows (h : d.row ≤ k) : (d.closeRows k).row = k := by
  rw [closeRows_eq_iterate, row_iterate]
  omega

/-- One more row is closed after the others. -/
theorem closeRows_succ (h : d.row ≤ k) : d.closeRows (k + 1) = (d.closeRows k).closeRow := by
  rw [closeRows_eq_iterate, closeRows_eq_iterate, Nat.succ_sub h, Function.iterate_succ_apply']

/-- When the entries of a row have been appended, the draft holds them behind those of the rows
before, which are closed. -/
theorem foldl_push_row (h : d.row ≤ k) (row : List (Nat × α)) :
    ((row.map fun (c, x) => (k, c, x)).foldl push d).closeRows k =
        { d.closeRows k with
          columns := (d.closeRows k).columns ++ row.map Prod.fst
          values := (d.closeRows k).values ++ row.map Prod.snd } ∧
      ((row.map fun (c, x) => (k, c, x)).foldl push d).row ≤ k := by
  induction row generalizing d with
  | nil => simp [h]
  | cons e row ih =>
      obtain ⟨c, x⟩ := e
      have hRow : (d.push (k, c, x)).row = k := row_closeRows h
      have hStay := closeRows_of_le (Nat.le_of_eq hRow.symm)
      obtain ⟨hRest, hLe⟩ := ih (Nat.le_of_eq hRow)
      rw [hStay] at hRest
      simp only [List.map_cons, List.foldl_cons]
      refine ⟨?_, hLe⟩
      rw [hRest]
      simp [push]

/-- When the entries of consecutive rows have been appended and the rows are closed, the draft has
the offsets of the rows. -/
theorem foldl_push_rows {before columns : List Nat} {values : List α} (h : d.row ≤ k)
    (hClosed : d.closeRows k = ⟨before ++ [columns.length], columns, values, k⟩)
    (rows : List (List (Nat × α))) :
    ((entriesFrom k rows).foldl push d).closeRows (k + rows.length) =
        ⟨before ++ offsetsFrom columns.length (rows.map List.length),
          columns ++ rows.flatten.map Prod.fst, values ++ rows.flatten.map Prod.snd,
          k + rows.length⟩ ∧
      ((entriesFrom k rows).foldl push d).row ≤ k + rows.length := by
  induction rows generalizing d k before columns values with
  | nil => simp [entriesFrom, offsetsFrom, hClosed, h]
  | cons row rows ih =>
      obtain ⟨hRow, hLe⟩ := foldl_push_row h row
      have hNext : ((row.map fun (c, x) => (k, c, x)).foldl push d).closeRows (k + 1) =
          ⟨(before ++ [columns.length]) ++ [(columns ++ row.map Prod.fst).length],
            columns ++ row.map Prod.fst, values ++ row.map Prod.snd, k + 1⟩ := by
        rw [closeRows_succ hLe, hRow, hClosed]
        rfl
      have hRest := ih (Nat.le_succ_of_le hLe) hNext
      rw [entriesFrom_cons, List.foldl_append]
      have hCount : k + (row :: rows).length = k + 1 + rows.length := by
        rw [List.length_cons]
        omega
      rw [hCount]
      simpa [offsetsFrom, Nat.add_assoc] using hRest

/-- A draft has one offset more than it has closed rows. -/
theorem length_offsets_foldl_push (entries : List (Nat × Nat × α))
    (h : d.offsets.length = d.row + 1) :
    (entries.foldl push d).offsets.length = (entries.foldl push d).row + 1 := by
  have hClose (n : Nat) {d : Draft α} (h : d.offsets.length = d.row + 1) :
      (closeRow^[n] d).offsets.length = (closeRow^[n] d).row + 1 := by
    induction n with
    | zero => exact h
    | succ n ih => simp [Function.iterate_succ_apply', closeRow, ih]
  induction entries generalizing d with
  | nil => exact h
  | cons e entries ih =>
      obtain ⟨r, c, x⟩ := e
      refine ih ?_
      simp only [push, closeRows_eq_iterate]
      exact hClose _ h

/-- Closing rows counts them, and the count plays no part in what is closed later. -/
theorem iterate_closeRow_count (offsets columns : List Nat) (values : List α) (r s n : Nat) :
    { closeRow^[n] ⟨offsets, columns, values, r⟩ with row := 0 } =
      { closeRow^[n] ⟨offsets, columns, values, s⟩ with row := 0 } := by
  induction n generalizing offsets r s with
  | zero => rfl
  | succ n ih => exact ih (offsets ++ [columns.length]) (r + 1) (s + 1)

/-- The rows that are left are closed as all others are. -/
theorem finish_eq_closeRows (h : d.offsets.length = d.row + 1) (size : Nat) :
    { d.finish size with row := 0 } = { d.closeRows size with row := 0 } := by
  have hFinish (d : Draft α) :
      { d.finish size with row := 0 } =
        { closeRow^[size + 1 - d.offsets.length] d with row := 0 } := by
    fun_induction finish d size with
    | case1 d hLt ih =>
        have hCount : size + 1 - d.offsets.length =
            size + 1 - (d.offsets ++ [d.columns.length]).length + 1 := by
          rw [List.length_append, List.length_singleton]
          omega
        rw [ih, hCount, Function.iterate_succ_apply]
        exact iterate_closeRow_count _ _ _ _ _ _
    | case2 d hLt => rw [Nat.sub_eq_zero_of_le (Nat.le_of_not_lt hLt), Function.iterate_zero_apply]
  rw [hFinish, closeRows_eq_iterate, h, Nat.add_sub_add_right]

end Draft

/-- The traversal of rows that give valid data builds the matrix of the rows. -/
theorem build?_entriesFrom {rows : List (List (Nat × α))} (h : (ofRows rows).Valid) :
    build? rows.length (entriesFrom 0 rows) = some (ofRows rows) := by
  have hStart : (Draft.start : Draft α).closeRows 0 = ⟨[] ++ [([] : List Nat).length], [], [], 0⟩ :=
    Draft.closeRows_of_le (Nat.le_refl 0)
  obtain ⟨hRows, _⟩ := Draft.foldl_push_rows (Nat.le_refl 0) hStart rows
  have hLength := Draft.length_offsets_foldl_push (entriesFrom 0 rows)
    (d := (Draft.start : Draft α)) rfl
  have hFinish := Draft.finish_eq_closeRows hLength rows.length
  rw [Nat.zero_add] at hRows
  simp only [hRows, Draft.mk.injEq, and_true] at hFinish
  obtain ⟨hOffsets, hColumns, hValues⟩ := hFinish
  rw [build?, hOffsets, hColumns, hValues]
  exact if_pos h

/-! ### New values in an old layout -/

theorem overwrite_of_length_eq {old new : List α} (h : old.length = new.length) :
    overwrite old new = new := by
  induction old generalizing new with
  | nil => cases new with
    | nil => rfl
    | cons y new => cases h
  | cons x old ih => cases new with
    | nil => cases h
    | cons y new => rw [overwrite, ih (Nat.succ.inj h)]

/-- Rows with the columns of a matrix overwrite its values as if it was laid out anew. -/
theorem refresh_ofRows {rows rows' : List (List (Nat × α))}
    (h : rows.map (List.map Prod.fst) = rows'.map (List.map Prod.fst)) :
    (ofRows rows).refresh rows' = ofRows rows' := by
  have hLengths : rows.map List.length = rows'.map List.length := by
    have hSame := congrArg (List.map List.length) h
    simpa [Function.comp_def] using hSame
  have hColumns : rows.flatten.map Prod.fst = rows'.flatten.map Prod.fst := by
    rw [List.map_flatten, List.map_flatten, h]
  have hValues : (rows.flatten.map Prod.snd).length = (rows'.flatten.map Prod.snd).length := by
    have hSame := congrArg List.length hColumns
    rwa [List.length_map, List.length_map] at hSame ⊢
  have hSize : rows.length = rows'.length := by simpa using congrArg List.length h
  rw [refresh, ofRows, ofRows, overwrite_of_length_eq hValues, hSize, hLengths, hColumns]

end Csr

end Elastodynamics.Sparse
