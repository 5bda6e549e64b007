import Elastodynamics.Proofs.Sparse.Compressed
import Elastodynamics.Proofs.Sparse.Dense
/-!
The rows of the full matrix. A full block row has the mirrored blocks from above the diagonal first
and the stored blocks of the row behind them. Its columns are those of the pattern alone, they come
in strictly increasing order, and its blocks are those that a lookup finds. So the scalar rows have
strictly increasing columns too, and their entries are the entries of the blocks.
-/
namespace Elastodynamics.Sparse

/-! ### Block columns -/

namespace Pattern

/-- The block columns of a full block row: rows of the blocks above the diagonal that are mirrored
into it, and columns of the blocks that are stored in it. -/
def fullRow (P : Pattern) (i : Nat) : List Nat :=
  ((P.entries.toList.filter fun c => c.2 == i && c.1 != c.2).map Prod.fst) ++
    ((P.entries.toList.filter fun c => c.1 == i).map Prod.snd)

/-- Mirrored blocks lie to the left of the diagonal, in the order of their rows, and stored blocks
on the diagonal and to the right of it. -/
theorem pairwise_fullRow (P : Pattern) (i : Nat) : (P.fullRow i).Pairwise (· < ·) := by
  rw [fullRow, List.pairwise_append, List.pairwise_map, List.pairwise_map]
  refine ⟨?_, ?_, ?_⟩
  · refine List.Pairwise.imp_of_mem ?_ (P.sorted.filter _)
    intro a b ha hb hab
    simp only [List.mem_filter, Bool.and_eq_true, beq_iff_eq] at ha hb
    rw [Coord.before_iff] at hab
    omega
  · refine List.Pairwise.imp_of_mem ?_ (P.sorted.filter _)
    intro a b ha hb hab
    simp only [List.mem_filter, beq_iff_eq] at ha hb
    rw [Coord.before_iff] at hab
    omega
  · intro x hx y hy
    obtain ⟨a, ha, rfl⟩ := List.mem_map.mp hx
    obtain ⟨b, hb, rfl⟩ := List.mem_map.mp hy
    simp only [List.mem_filter, Bool.and_eq_true, beq_iff_eq, bne_iff_ne] at ha hb
    have hLeft := (P.bounded a ha.1).1
    have hRight := (P.bounded b hb.1).1
    omega

end Pattern

/-! ### Tables with distinct keys -/

/-- What a lookup finds in a table with increasing keys is what the table holds. -/
theorem lookup_eq_some_iff_mem {β : Type} {l : List (Nat × β)}
    (h : (l.map Prod.fst).Pairwise (· < ·)) {k : Nat} {x : β} :
    l.lookup k = some x ↔ (k, x) ∈ l := by
  induction l with
  | nil => simp
  | cons e l ih =>
      obtain ⟨k', x'⟩ := e
      simp only [List.map_cons, List.pairwise_cons, List.mem_map] at h
      by_cases hKey : k = k'
      · subst hKey
        have hOther : (k, x) ∉ l := fun hMem => Nat.lt_irrefl k (h.1 k ⟨_, hMem, rfl⟩)
        simp [hOther, eq_comm]
      · simp [List.lookup_cons, beq_eq_false_iff_ne.mpr hKey, hKey, ih h.2]

namespace BlockMatrix

variable {α : Type}

/-! ### Scalar rows of a block row -/

/-- The columns of a scalar row depend on the block columns only: three for each of them. -/
theorem map_fst_scalarRow (row : List (Nat × Mat3 α)) (p : Fin 3) :
    (scalarRow row p).map Prod.fst =
      (row.map Prod.fst).flatMap fun j => [3 * j, 3 * j + 1, 3 * j + 2] := by
  rw [scalarRow, List.map_flatMap, List.flatMap_map]
  rfl

theorem pairwise_scalarRow {row : List (Nat × Mat3 α)}
    (h : (row.map Prod.fst).Pairwise (· < ·)) (p : Fin 3) :
    ((scalarRow row p).map Prod.fst).Pairwise (· < ·) := by
  rw [map_fst_scalarRow, List.pairwise_flatMap]
  refine ⟨fun j _ => by simp, h.imp ?_⟩
  intro j j' hlt x hx y hy
  simp only [List.mem_cons, List.not_mem_nil, or_false] at hx hy
  omega

/-- A scalar row has the entries of the blocks in its block row. -/
theorem mem_scalarRow {row : List (Nat × Mat3 α)} {p : Fin 3} {c : Nat} {x : α} :
    (c, x) ∈ scalarRow row p ↔
      ∃ B, (c / 3, B) ∈ row ∧ B.get p (Dense.component c) = x := by
  simp only [scalarRow, List.mem_flatMap, List.mem_map, List.mem_finRange, true_and,
    Prod.mk.injEq, Prod.exists]
  constructor
  · rintro ⟨j, B, hRow, q, rfl, rfl⟩
    have hBlock : (3 * j + q.val) / 3 = j := by omega
    rw [hBlock, Dense.component_eq]
    exact ⟨B, hRow, rfl⟩
  · rintro ⟨B, hRow, rfl⟩
    exact ⟨c / 3, B, hRow, Dense.component c, (Dense.eq_component c).symm, rfl⟩

/-! ### Full block rows -/

/-- The blocks of a full block row with their block columns. -/
def blockRow (A : BlockMatrix α) (i : Nat) : List (Nat × Mat3 α) :=
  ((A.lowerBlocks.filter fun e => e.1.1 == i) ++ A.stored.filter fun e => e.1.1 == i).map
    fun e => (e.1.2, e.2)

theorem blockRows_eq (A : BlockMatrix α) : A.blockRows = (List.range A.size).map A.blockRow := by
  apply List.ext_getElem
  · simp [blockRows]
  · intro i h₁ h₂
    simp [blockRows, blockRow, getElem_bucket]

/-- The columns of a full block row are those of the pattern. -/
theorem map_fst_blockRow (A : BlockMatrix α) (i : Nat) :
    (A.blockRow i).map Prod.fst = A.pattern.fullRow i := by
  rw [Pattern.fullRow, ← map_fst_stored, blockRow, lowerBlocks]
  simp only [List.filter_map, List.filter_filter, List.map_append, List.map_map, Function.comp_def]

theorem mem_stored_iff {A : BlockMatrix α} {i j : Nat} {B : Mat3 α} :
    ((i, j), B) ∈ A.stored ↔ i ≤ j ∧ ∃ k, A.pattern.find? i j = some k ∧ A.blocks.get k = B := by
  rw [stored_eq_ofFn, List.mem_ofFn]
  constructor
  · rintro ⟨k, hk⟩
    obtain ⟨hCoord, rfl⟩ := Prod.mk.injEq _ _ _ _ ▸ hk
    have hUpper : i ≤ j := by
      have hMem := A.pattern.entry_mem k
      rw [hCoord] at hMem
      exact Pattern.upper_of_mem hMem
    exact ⟨hUpper, k, Pattern.find?_eq_some_iff.mpr (hCoord.trans
      (Coord.upper_eq_self hUpper).symm), rfl⟩
  · rintro ⟨hUpper, k, hFind, rfl⟩
    refine ⟨k, ?_⟩
    rw [Pattern.find?_eq_some_iff.mp hFind, Coord.upper_eq_self hUpper]

/-- The blocks of a full block row are those that a lookup finds. -/
theorem mem_blockRow {A : BlockMatrix α} {i j : Nat} {B : Mat3 α} :
    (j, B) ∈ A.blockRow i ↔ A.block? i j = some B := by
  simp only [blockRow, lowerBlocks, List.mem_map, List.mem_append, List.mem_filter, beq_iff_eq,
    bne_iff_ne, Prod.exists, Prod.mk.injEq, block?, Option.map_eq_some_iff]
  constructor
  · rintro ⟨a, b, X, ⟨⟨a', b', X', ⟨hStored, hne⟩, ⟨rfl, rfl⟩, rfl⟩, rfl⟩ | ⟨hStored, rfl⟩,
      rfl, rfl⟩
    · obtain ⟨hUpper, k, hFind, rfl⟩ := mem_stored_iff.mp hStored
      refine ⟨k, Pattern.find?_comm.trans hFind, if_neg ?_⟩
      omega
    · obtain ⟨hUpper, k, hFind, rfl⟩ := mem_stored_iff.mp hStored
      exact ⟨k, hFind, if_pos hUpper⟩
  · rintro ⟨k, hFind, rfl⟩
    rcases Nat.lt_or_ge j i with hBelow | hAbove
    · refine ⟨i, j, _, .inl ⟨⟨j, i, A.blocks.get k, ⟨?_, Nat.ne_of_lt hBelow⟩, ⟨rfl, rfl⟩, rfl⟩,
        rfl⟩, rfl, (if_neg (Nat.not_le_of_lt hBelow)).symm⟩
      exact mem_stored_iff.mpr ⟨Nat.le_of_lt hBelow, k, Pattern.find?_comm.trans hFind, rfl⟩
    · exact ⟨i, j, _, .inr ⟨mem_stored_iff.mpr ⟨hAbove, k, hFind, rfl⟩, rfl⟩, rfl,
        (if_pos hAbove).symm⟩

/-! ### Full scalar rows -/

/-- Three rows for each of `n` are `3 * n` rows. -/
theorem flatMap_range_three {β : Type} (f : Nat → Fin 3 → β) (n : Nat) :
    ((List.range n).flatMap fun i => (List.finRange 3).map (f i)) =
      (List.range (3 * n)).map fun r => f (r / 3) (Dense.component r) := by
  induction n with
  | zero => rfl
  | succ n ih =>
      have hRows : (List.finRange 3).map (f n) =
          [3 * n, 3 * n + 1, 3 * n + 2].map fun r => f (r / 3) (Dense.component r) := by
        have hNode (q : Fin 3) : (3 * n + q.val) / 3 = n := by omega
        have hRow (q : Fin 3) :
            f ((3 * n + q.val) / 3) (Dense.component (3 * n + q.val)) = f n q := by
          rw [hNode, Dense.component_eq]
        exact congrArg₂ _ (hRow 0).symm (congrArg₂ _ (hRow 1).symm (congrArg₂ _ (hRow 2).symm rfl))
      rw [List.range_succ, List.flatMap_append, ih, List.flatMap_singleton, hRows, Nat.mul_succ,
        List.range_succ, List.range_succ, List.range_succ]
      simp only [List.map_append, List.append_assoc]
      rfl

/-- The scalar rows of the full matrix, row after row. -/
theorem scalarRows_eq (A : BlockMatrix α) : A.scalarRows =
    (List.range A.dim).map fun r => scalarRow (A.blockRow (r / 3)) (Dense.component r) := by
  rw [scalarRows, blockRows_eq, List.flatMap_map]
  exact flatMap_range_three (fun i => scalarRow (A.blockRow i)) A.size

theorem length_scalarRows (A : BlockMatrix α) : A.scalarRows.length = A.dim := by
  rw [scalarRows_eq, List.length_map, List.length_range]

/-- Matrices with one pattern have the same columns in every row. -/
theorem map_columns_scalarRows (A : BlockMatrix α) :
    A.scalarRows.map (List.map Prod.fst) = (List.range A.dim).map fun r =>
      (A.pattern.fullRow (r / 3)).flatMap fun j => [3 * j, 3 * j + 1, 3 * j + 2] := by
  rw [scalarRows_eq, List.map_map]
  refine List.map_congr_left fun r _ => ?_
  rw [Function.comp_apply, map_fst_scalarRow, map_fst_blockRow]

end BlockMatrix

end Elastodynamics.Sparse
