import Elastodynamics.Proofs.Sparse.Rows
import Elastodynamics.Proofs.Sparse.Validation
/-!
Canonical patterns. The entries of a pattern are the columns of its rows one after the other, and
its compressed form is made of the lengths of these rows and of the columns. A pattern is determined
by the members of its entries, and by its compressed form too: compressed data is accepted exactly
if it is the compressed form of the pattern that it gives.
-/
namespace Elastodynamics.Sparse.Pattern

/-! ### Rows one after the other -/

/-- Offsets that are the partial sums of the lengths of rows cut the rows out again. -/
theorem cutRows_offsetsFrom (before : List Nat) (rows : List (List Nat)) :
    cutRows (before ++ rows.flatten) (offsetsFrom before.length (rows.map List.length)) = rows := by
  induction rows generalizing before with
  | nil => rfl
  | cons row rows ih =>
      have hRest := ih (before ++ row)
      rw [List.append_assoc, List.length_append] at hRest
      have hFirst : (offsetsFrom (before.length + row.length) (rows.map List.length)) =
          (before.length + row.length) ::
            (offsetsFrom (before.length + row.length) (rows.map List.length)).tail := by
        cases rows <;> rfl
      rw [List.map_cons, offsetsFrom, hFirst, cutRows, ← hFirst, List.flatten_cons, hRest,
        List.drop_left, Nat.add_sub_cancel_left, List.take_left]

/-- Behind the blocks of the rows before row `k` come those of the rows from `k` on. -/
theorem drop_placed (i k : Nat) (rows : List (List Nat)) :
    (placed i rows).drop ((rows.map List.length).take k).sum = placed (i + k) (rows.drop k) := by
  induction rows generalizing i k with
  | nil => simp [placed]
  | cons row rows ih =>
      cases k with
      | zero => simp
      | succ k =>
          rw [List.map_cons, List.take_succ_cons, List.sum_cons, placed, List.drop_succ_cons,
            ← List.drop_drop, List.drop_left' (List.length_map _), ih, Nat.add_assoc,
            Nat.add_comm 1]

variable (P : Pattern)

/-- The block columns of the entries in row `i`. -/
def storedRow (i : Nat) : List Nat := (P.entries.toList.filter fun c => c.1 == i).map Prod.snd

theorem mem_storedRow {i j : Nat} : j ∈ P.storedRow i ↔ (i, j) ∈ P.entries := by
  simp [storedRow]

/-- Stored rows are the right parts of full rows. -/
theorem pairwise_storedRow (i : Nat) : (P.storedRow i).Pairwise (· < ·) :=
  (List.pairwise_append.mp (P.pairwise_fullRow i)).2.1

theorem rows_eq : P.rows.toList = (List.range P.size).map P.storedRow := by
  apply List.ext_getElem
  · simp [rows]
  · intro i h₁ h₂
    simp [rows, getElem_bucket, storedRow]

theorem getElem?_rows {i : Nat} (h : i < P.size) : P.rows.toList[i]? = some (P.storedRow i) := by
  rw [rows_eq, List.getElem?_map, List.getElem?_range h, Option.map_some]

theorem eq_storedRow {i : Nat} {row : List Nat} (h : P.rows.toList[i]? = some row) :
    i < P.size ∧ row = P.storedRow i := by
  obtain ⟨hLt, rfl⟩ := List.getElem?_eq_some_iff.mp h
  simp only [rows_eq, List.length_map, List.length_range] at hLt
  exact ⟨hLt, by simp [rows_eq]⟩

theorem pairwise_of_mem_rows {row : List Nat} (h : row ∈ P.rows.toList) :
    row.Pairwise (· < ·) := by
  obtain ⟨i, hi⟩ := List.mem_iff_getElem?.mp h
  rw [(P.eq_storedRow hi).2]
  exact P.pairwise_storedRow i

/-- The entries are the columns of all rows with their rows. -/
theorem placed_rows : placed 0 P.rows.toList = P.entries.toList := by
  -- both lists are strictly increasing, so that it is enough to compare their members
  refine Coord.eq_of_mem_iff (pairwise_placed fun _ => P.pairwise_of_mem_rows) P.sorted fun c => ?_
  rw [mem_placed, Array.mem_toList_iff]
  constructor
  · rintro ⟨i, row, hRow, hi, hc⟩
    rw [(P.eq_storedRow hRow).2, mem_storedRow, ← Nat.zero_add i, ← hi] at hc
    exact hc
  · intro hc
    have hLt : c.1 < P.size := Nat.lt_of_le_of_lt (upper_of_mem hc) (lt_size_of_mem hc)
    exact ⟨c.1, _, P.getElem?_rows hLt, (Nat.zero_add _).symm, P.mem_storedRow.mpr hc⟩

theorem columns_eq : P.columns = P.rows.toList.flatten := by
  rw [columns, ← placed_rows, map_snd_placed]

theorem cutRows_offsets : cutRows P.columns P.offsets = P.rows.toList := by
  rw [columns_eq, offsets]
  exact cutRows_offsetsFrom [] P.rows.toList

/-! ### Patterns and their data -/

/-- The compressed data of a pattern describes a pattern. -/
theorem describes : Describes P.size P.offsets P.columns where
  length_offsets := by rw [offsets, length_offsetsFrom, List.length_map, rows_eq, List.length_map,
    List.length_range]
  first := by
    rw [offsets]
    cases P.rows.toList <;> rfl
  last := by rw [offsets, getLast?_offsetsFrom, columns_eq, List.length_flatten, Nat.zero_add]
  inOrder := by
    refine ⟨List.isChain_iff_pairwise.mpr (pairwise_offsetsFrom 0 _), ?_, ?_⟩
    · rw [cutRows_offsets]
      exact fun row => P.pairwise_of_mem_rows
    · intro i row hRow j hj
      rw [cutRows_offsets] at hRow
      rw [(P.eq_storedRow hRow).2, mem_storedRow] at hj
      rw [Nat.zero_add]
      exact ⟨upper_of_mem hj, lt_size_of_mem hj⟩

theorem eq_iff_mem {P Q : Pattern} :
    P = Q ↔ P.size = Q.size ∧ ∀ c, c ∈ P.entries ↔ c ∈ Q.entries := by
  refine ⟨fun h => h ▸ ⟨rfl, fun _ => Iff.rfl⟩, fun ⟨hSize, hMem⟩ => ?_⟩
  have hEntries : P.entries.toList = Q.entries.toList :=
    Coord.eq_of_mem_iff P.sorted Q.sorted fun c => by simpa using hMem c
  cases P
  cases Q
  simp only [mk.injEq] at hSize hEntries ⊢
  exact ⟨hSize, Array.ext' hEntries⟩

/-- The entries of a pattern make the pattern. -/
theorem ofEntries_entries : ofEntries P.size P.entries.toList = .ok P := by
  have hBounds (c : Coord) (hc : c ∈ P.entries.toList) : c.1 ≤ c.2 ∧ c.2 < P.size := P.bounded c hc
  obtain ⟨Q, hQ, hEntries⟩ := ofEntries_of_sorted
    (fun c hc => inside_iff.mpr ⟨Nat.lt_of_le_of_lt (hBounds c hc).1 (hBounds c hc).2,
      (hBounds c hc).2⟩) (fun c hc => (hBounds c hc).1) P.sorted
  have hSame : Q = P := eq_iff_mem.mpr ⟨size_of_ofEntries hQ, fun c => by
    rw [← Array.mem_toList_iff, hEntries, Array.mem_toList_iff]⟩
  exact hSame ▸ hQ

variable {P} {size : Nat} {offsets columns : List Nat}

/-- Compressed data is accepted as a pattern exactly if it is the data of the pattern. -/
theorem ofCompressed_eq_ok_iff : ofCompressed size offsets columns = .ok P ↔
    P.size = size ∧ P.offsets = offsets ∧ P.columns = columns := by
  constructor
  · intro h
    rcases ofCompressed_cases size offsets columns with
      ⟨hDescribes, hOk⟩ | ⟨_, hStuck⟩ | ⟨_, _, reason, hError⟩
    · rw [hOk] at h
      cases h
      exact ⟨rfl, hDescribes.ofCoords⟩
    · rw [hStuck] at h
      cases h
    · rw [hError] at h
      cases h
  · rintro ⟨rfl, rfl, rfl⟩
    rcases ofCompressed_cases P.size P.offsets P.columns with ⟨_, hOk⟩ | ⟨hOver, _⟩ | ⟨hNot, _⟩
    · rw [hOk, cutRows_offsets, placed_rows, (ofEntries_eq_ok_iff.mp P.ofEntries_entries).2.symm]
    · exact absurd hOver.2 P.describes.not_overshoots
    · exact absurd P.describes hNot

end Elastodynamics.Sparse.Pattern
