import Elastodynamics.Proofs.Sparse.Lookup
import Elastodynamics.Sparse.BlockMatrix
/-!
The dense form of a block-sparse matrix. Its node blocks are the stored blocks, their transposes
below the diagonal, and zero everywhere else.
-/
namespace Elastodynamics

namespace Dense

variable {β : Type} {m n : Nat}

theorem get?_set (A : Dense β m n) (i j : Nat) (x : β) (r c : Nat) :
    (A.set i j x).get? r c = if r = i ∧ c = j ∧ r < m ∧ c < n then some x else A.get? r c := by
  by_cases hBounds : r < m ∧ c < n
  · obtain ⟨hr, hc⟩ := hBounds
    have hEntry (B : Dense β m n) : B.get? r c = some (B.rows[r][c]) := dif_pos ⟨hr, hc⟩
    rw [hEntry, hEntry]
    by_cases hi : i < m
    · rw [set, dif_pos hi]
      by_cases hri : i = r
      · subst hri
        rw [Vector.getElem_set_self, Vector.getElem_setIfInBounds]
        simp only [hr, hc, and_self, and_true, true_and, eq_comm (a := c)]
        split <;> rfl
      · rw [if_neg fun h : r = i ∧ _ => hri h.1.symm]
        exact congrArg (fun row => some row[c]) (Vector.getElem_set_ne hi hr hri)
    · have hri : ¬(r = i ∧ c = j ∧ r < m ∧ c < n) := fun h => hi (h.1 ▸ hr)
      rw [set, dif_neg hi, if_neg hri]
  · have hNone (B : Dense β m n) : B.get? r c = none := dif_neg hBounds
    rw [hNone, hNone, if_neg fun h => hBounds h.2.2]

private theorem mod_three_lt (c : Nat) : c % 3 < 3 := Nat.mod_lt c (by decide)

/-- The component that belongs to the index of a scalar row or column. -/
def component (c : Nat) : Fin 3 := ⟨c % 3, mod_three_lt c⟩

theorem component_eq (b : Nat) (q : Fin 3) : component (3 * b + q.val) = q := by
  apply Fin.ext
  show (3 * b + q.val) % 3 = q.val
  omega

private theorem eq_zero_or_one_or_two : ∀ q : Fin 3, q = 0 ∨ q = 1 ∨ q = 2 := by decide

/-- Every index is that of a component of its node. -/
theorem eq_component (c : Nat) : c = 3 * (c / 3) + (component c).val := by
  show c = 3 * (c / 3) + c % 3
  omega

/-- Writing a row of node block `b` changes its components only. -/
private theorem get?_setRow (A : Dense β m n) (i b : Nat) (f : Fin 3 → β) (r c : Nat) :
    ((List.finRange 3).foldl (fun A q => A.set i (3 * b + q.val) (f q)) A).get? r c =
      if r = i ∧ c / 3 = b ∧ r < m ∧ c < n then some (f (component c)) else A.get? r c := by
  have hList : List.finRange 3 = [0, 1, 2] := rfl
  have hColumn (q : Fin 3) : c = 3 * b + q.val ↔ c / 3 = b ∧ component c = q := by
    constructor
    · rintro rfl
      exact ⟨by omega, component_eq b q⟩
    · rintro ⟨rfl, rfl⟩
      exact eq_component c
  rw [hList]
  simp only [List.foldl_cons, List.foldl_nil, get?_set, hColumn, and_assoc]
  rcases eq_zero_or_one_or_two (component c) with hq | hq | hq
  · simp [hq]
  · simp [hq]
  · simp [hq]

/-- Writing the rows of block `(a, b)` changes this block only. -/
private theorem get?_setRows (A : Dense β m n) {a b : Nat} (B : Mat3 β) (ha : 3 * a + 3 ≤ m)
    (hb : 3 * b + 3 ≤ n) (r c : Nat) :
    ((List.finRange 3).foldl (fun A p => (List.finRange 3).foldl
      (fun A q => A.set (3 * a + p.val) (3 * b + q.val) (B.get p q)) A) A).get? r c =
      if r / 3 = a ∧ c / 3 = b then some (B.get (component r) (component c)) else A.get? r c := by
  have hList : List.finRange 3 = [0, 1, 2] := rfl
  have hRow (p : Fin 3) : (r = 3 * a + p.val ∧ c / 3 = b ∧ r < m ∧ c < n) ↔
      r / 3 = a ∧ c / 3 = b ∧ component r = p := by
    constructor
    · rintro ⟨rfl, hc, _⟩
      exact ⟨by omega, hc, component_eq a p⟩
    · rintro ⟨rfl, rfl, rfl⟩
      refine ⟨eq_component r, rfl, ?_, ?_⟩
      · omega
      · omega
  have hSetRow (A : Dense β m n) (p : Fin 3) := get?_setRow A (3 * a + p.val) b (B.get p) r c
  rw [hList] at hSetRow ⊢
  simp only [List.foldl_cons, List.foldl_nil] at hSetRow ⊢
  simp only [hSetRow, hRow]
  rcases eq_zero_or_one_or_two (component r) with hp | hp | hp
  · simp [hp]
  · simp [hp]
  · simp [hp]

variable [Zero β]

/-- Writing a block at nodes of the matrix changes this block only. -/
theorem blockAt_setBlock (A : Dense β m n) {a b : Nat} (B : Mat3 β) (ha : 3 * a + 3 ≤ m)
    (hb : 3 * b + 3 ≤ n) (i j : Nat) :
    (A.setBlock a b B).blockAt i j = if i = a ∧ j = b then B else A.blockAt i j := by
  have hEntry (p q : Fin 3) :
      ((A.setBlock a b B).get? (3 * i + p.val) (3 * j + q.val)) =
        if i = a ∧ j = b then some (B.get p q) else A.get? (3 * i + p.val) (3 * j + q.val) := by
    have hi : (3 * i + p.val) / 3 = i := by omega
    have hj : (3 * j + q.val) / 3 = j := by omega
    rw [setBlock, get?_setRows A B ha hb]
    simp only [hi, hj, component_eq]
  simp only [blockAt, hEntry]
  split
  · exact Mat3.ofFn_get B
  · rfl

theorem blockAt_repeated (i j : Nat) :
    (repeated (0 : β) : Dense β m n).blockAt i j = Mat3.repeated 0 := by
  have hEntry (r c : Nat) : ((repeated (0 : β) : Dense β m n).get? r c).getD 0 = 0 := by
    rw [get?]
    split
    · exact get_repeated 0 _ _
    · rfl
  simp only [blockAt, hEntry]
  rfl

/-- The entries of a matrix are those of its blocks. -/
theorem get_eq_blockAt (A : Dense β m n) (r : Fin m) (c : Fin n) :
    A.get r c = (A.blockAt (r.val / 3) (c.val / 3)).get (component r.val) (component c.val) := by
  have hEntry : A.get? r.val c.val = some (A.get r c) := dif_pos ⟨r.isLt, c.isLt⟩
  rw [blockAt, Mat3.get_ofFn, ← eq_component r.val, ← eq_component c.val, hEntry,
    Option.getD_some]

/-- The blocks of a symmetric matrix are the transposes of the blocks on the other side. -/
theorem transpose_blockAt {A : Dense β n n} (h : ∀ r c, A.get r c = A.get c r) (a b : Nat) :
    (A.blockAt a b).transpose = A.blockAt b a := by
  have hEntry (r c : Nat) : A.get? r c = A.get? c r := by
    rw [get?, get?]
    by_cases hIn : r < n ∧ c < n
    · rw [dif_pos hIn, dif_pos hIn.symm, h]
    · rw [dif_neg hIn, dif_neg fun hSwapped => hIn hSwapped.symm]
  rw [← Mat3.ofFn_get (A.blockAt a b).transpose, ← Mat3.ofFn_get (A.blockAt b a)]
  congr 1
  funext p q
  rw [Mat3.get_transpose, blockAt, blockAt, Mat3.get_ofFn, Mat3.get_ofFn, hEntry]

/-- The blocks of the scalar entries of a matrix of node blocks are its node blocks. -/
theorem blockAt_flatten (A : Dense (Mat3 β) m n) (a : Fin m) (b : Fin n) :
    A.flatten.blockAt a b = A.get a b := by
  have hEntry (p q : Fin 3) :
      (A.flatten.get? (3 * a.val + p.val) (3 * b.val + q.val)).getD 0 = (A.get a b).get p q := by
    have hIn : 3 * a.val + p.val < 3 * m ∧ 3 * b.val + q.val < 3 * n := by omega
    rw [get?, dif_pos hIn, Option.getD_some, flatten, get_ofFn]
    show (A.get (nodeOf (dofOf a p)) (nodeOf (dofOf b q))).get (componentOf (dofOf a p))
      (componentOf (dofOf b q)) = _
    simp only [nodeOf_dofOf, componentOf_dofOf]
  simp only [blockAt, hEntry]
  exact Mat3.ofFn_get _

end Dense

namespace Sparse.BlockMatrix

variable {α : Type}

/-- The stored blocks in the order of their storage indices. -/
theorem stored_eq_ofFn (A : BlockMatrix α) :
    A.stored = List.ofFn fun k => (A.pattern.entry k, A.blocks.get k) := by
  apply List.ext_getElem
  · simp [stored]
  · intro k h1 h2
    simp [stored, Vector.get, Pattern.entry]

theorem map_fst_stored (A : BlockMatrix α) : A.stored.map Prod.fst = A.pattern.entries.toList :=
  List.map_fst_zip (by simp)

theorem mem_entries_of_mem_stored {A : BlockMatrix α} {e : Coord × Mat3 α} (h : e ∈ A.stored) :
    e.1 ∈ A.pattern.entries := by
  rw [stored_eq_ofFn] at h
  obtain ⟨k, rfl⟩ := List.mem_ofFn.mp h
  exact A.pattern.entry_mem k

variable [Scalar α]

/-- The block at `(i, j)` of the symmetric matrix, zero if it is not stored. -/
def block (A : BlockMatrix α) (i j : Nat) : Mat3 α := (A.block? i j).getD 0

/-- A stored block as it is read at `(i, j)`: the block itself above the diagonal and on it, and its
transpose below. -/
def oriented (i j : Nat) (B : Mat3 α) : Mat3 α := if i ≤ j then B else B.transpose

theorem block_of_find? {A : BlockMatrix α} {i j : Nat} {k : Fin A.pattern.entries.size}
    (h : A.pattern.find? i j = some k) : A.block i j = oriented i j (A.blocks.get k) := by
  rw [block, block?, h]
  rfl

theorem block_of_not_contains {A : BlockMatrix α} {i j : Nat}
    (h : ¬ A.pattern.contains i j = true) : A.block i j = 0 := by
  rw [Pattern.contains, Option.not_isSome_iff_eq_none] at h
  rw [block, block?, h]
  rfl

/-- Of two mirrored blocks the one below the diagonal is the transpose of the one above it. -/
theorem transpose_block_of_lt {A : BlockMatrix α} {i j : Nat} (h : i < j) :
    (A.block i j).transpose = A.block j i := by
  cases hFind : A.pattern.find? i j with
  | some k =>
      rw [block_of_find? hFind, block_of_find? (Pattern.find?_comm.trans hFind), oriented, oriented,
        if_pos (Nat.le_of_lt h), if_neg (Nat.not_le_of_lt h)]
  | none =>
      rw [block, block, block?, block?, Pattern.find?_comm (i := j), hFind]
      rfl

/-- Writes to other blocks keep a block. -/
private theorem blockAt_foldl_of_ne {n i j : Nat}
    {write : Dense α n n → Coord × Mat3 α → Dense α n n}
    {l : List (Coord × Mat3 α)} (D : Dense α n n)
    (hWrite : ∀ D, ∀ e ∈ l, (write D e).blockAt i j =
      if e.1 = Coord.upper (i, j) then oriented i j e.2 else D.blockAt i j)
    (hOther : ∀ e ∈ l, e.1 ≠ Coord.upper (i, j)) :
    (l.foldl write D).blockAt i j = D.blockAt i j := by
  induction l generalizing D with
  | nil => rfl
  | cons e l ih =>
      rw [List.foldl_cons, ih _ (fun D e he => hWrite D e (List.mem_cons_of_mem _ he))
        fun e he => hOther e (List.mem_cons_of_mem _ he)]
      rw [hWrite D e List.mem_cons_self, if_neg (hOther e List.mem_cons_self)]

/-- Of writes to different blocks, the one to a block gives its value. -/
private theorem blockAt_foldl_of_mem {n i j : Nat}
    {write : Dense α n n → Coord × Mat3 α → Dense α n n}
    {l : List (Coord × Mat3 α)} (D : Dense α n n)
    (hWrite : ∀ D, ∀ e ∈ l, (write D e).blockAt i j =
      if e.1 = Coord.upper (i, j) then oriented i j e.2 else D.blockAt i j)
    (hDistinct : (l.map Prod.fst).Nodup) {e : Coord × Mat3 α} (he : e ∈ l)
    (hCoord : e.1 = Coord.upper (i, j)) : (l.foldl write D).blockAt i j = oriented i j e.2 := by
  induction l generalizing D with
  | nil => cases he
  | cons f l ih =>
      rw [List.map_cons, List.nodup_cons] at hDistinct
      have hTail : ∀ D, ∀ e ∈ l, (write D e).blockAt i j =
          if e.1 = Coord.upper (i, j) then oriented i j e.2 else D.blockAt i j :=
        fun D e he => hWrite D e (List.mem_cons_of_mem _ he)
      rcases List.mem_cons.mp he with rfl | he
      · have hOther : ∀ f ∈ l, f.1 ≠ Coord.upper (i, j) := fun f hf h =>
          hDistinct.1 (List.mem_map.mpr ⟨f, hf, h.trans hCoord.symm⟩)
        rw [List.foldl_cons, blockAt_foldl_of_ne _ hTail hOther, hWrite D e List.mem_cons_self,
          if_pos hCoord]
      · exact ih _ hTail hDistinct.2 he

/-- The node blocks of the dense form are the blocks of the matrix. -/
theorem blockAt_toDense (A : BlockMatrix α) (i j : Nat) : A.toDense.blockAt i j = A.block i j := by
  have hDistinct : (A.stored.map Prod.fst).Nodup := by
    rw [map_fst_stored]
    exact A.pattern.nodup_entries
  -- one write replaces the block and, off the diagonal, the transposed block
  have hWrite (D : Dense α A.dim A.dim) (e : Coord × Mat3 α) (he : e ∈ A.stored) :
      (if e.1.1 = e.1.2 then D.setBlock e.1.1 e.1.2 e.2
        else (D.setBlock e.1.1 e.1.2 e.2).setBlock e.1.2 e.1.1 e.2.transpose).blockAt i j =
        if e.1 = Coord.upper (i, j) then oriented i j e.2 else D.blockAt i j := by
    obtain ⟨⟨a, b⟩, B⟩ := e
    have hUpper : a ≤ b := Pattern.upper_of_mem (mem_entries_of_mem_stored he)
    have hLt : b < A.size := Pattern.lt_size_of_mem (mem_entries_of_mem_stored he)
    have ha : 3 * a + 3 ≤ A.dim := by
      simp only [dim]
      omega
    have hb : 3 * b + 3 ≤ A.dim := by
      simp only [dim]
      omega
    have hSame := Coord.upper_eq_iff (i := i) (j := j) hUpper
    simp only [oriented, eq_comm (a := (a, b)), hSame]
    split
    · rw [Dense.blockAt_setBlock _ _ ha hb]
      grind
    · rw [Dense.blockAt_setBlock _ _ hb ha, Dense.blockAt_setBlock _ _ ha hb]
      grind
  cases hFind : A.pattern.find? i j with
  | some k =>
      have hCoord := Pattern.find?_eq_some_iff.mp hFind
      have hStored : (A.pattern.entry k, A.blocks.get k) ∈ A.stored := by
        rw [stored_eq_ofFn]
        exact List.mem_ofFn.mpr ⟨k, rfl⟩
      rw [block_of_find? hFind]
      exact blockAt_foldl_of_mem _ hWrite hDistinct hStored hCoord
  | none =>
      have hMissing : ¬ A.pattern.contains i j = true := by
        simp [Pattern.contains, hFind]
      rw [block_of_not_contains hMissing]
      refine (blockAt_foldl_of_ne _ hWrite fun e he h => ?_).trans (Dense.blockAt_repeated i j)
      exact hMissing (Pattern.contains_iff.mpr (h ▸ mem_entries_of_mem_stored he))

/-- The entries of the dense form are those of the blocks. -/
theorem get_toDense (A : BlockMatrix α) (r c : Fin A.dim) :
    A.toDense.get r c = (A.block (r.val / 3) (c.val / 3)).get (Dense.component r.val)
      (Dense.component c.val) := by
  rw [Dense.get_eq_blockAt, blockAt_toDense]

end Sparse.BlockMatrix

end Elastodynamics
