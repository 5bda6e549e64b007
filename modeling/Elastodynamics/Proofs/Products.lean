import Elastodynamics.Proofs.Freshness
import Elastodynamics.Proofs.Model.Sums
/-!
Products of block-sparse matrices with vectors. A product is computed from the stored blocks of the
upper triangle only: each of them adds to the node of its row and, off the diagonal, transposed to
the node of its column. Over exact scalars this is the product of the full matrix, and matrices that
were changed by calls and evaluations only are symmetric as bilinear forms.
-/
namespace Elastodynamics.Sparse.BlockMatrix

/-! ### What a stored block adds -/

section

variable {α : Type} [Scalar α]

/-- Adds the products of a stored block and of its transpose, which is not stored, to `y`. -/
def addProducts (x y : Array α) (e : Coord × Mat3 α) : Array α :=
  let y := Stacked.addNode y e.1.1 (e.2.mulVec (Stacked.node x e.1.2))
  if e.1.1 = e.1.2 then y
  else Stacked.addNode y e.1.2 (e.2.transpose.mulVec (Stacked.node x e.1.1))

/-- The products of all stored blocks. -/
def sumProducts (A : BlockMatrix α) (x : Array α) : Array α :=
  A.stored.foldl (addProducts x) (Array.replicate A.dim 0)

theorem mulVector_eq (A : BlockMatrix α) (x : Array α) :
    A.mulVector x = if x.size = A.dim then some (A.sumProducts x) else none := rfl

end

variable {K : Type} [ExactScalar K]

/-- What a stored block adds at node `i`. A block on the diagonal adds once. -/
def rowTerm (x : Array K) (i : Nat) (e : Coord × Mat3 K) : Vec3 K :=
  (if e.1.1 = i then e.2.mulVec (Stacked.node x e.1.2) else 0) +
    if e.1.2 = i ∧ e.1.1 ≠ e.1.2 then e.2.transpose.mulVec (Stacked.node x e.1.1) else 0

variable {x y : Array K}

theorem size_addProducts (e : Coord × Mat3 K) : (addProducts x y e).size = y.size := by
  rw [addProducts]
  split
  · exact Stacked.size_addNode _ _ _
  · rw [Stacked.size_addNode, Stacked.size_addNode]

theorem node_addProducts {e : Coord × Mat3 K} (hRow : 3 * e.1.1 + 3 ≤ y.size)
    (hColumn : 3 * e.1.2 + 3 ≤ y.size) (i : Nat) :
    Stacked.node (addProducts x y e) i = Stacked.node y i + rowTerm x i e := by
  rw [addProducts, rowTerm]
  split
  · next hDiagonal =>
      have hOnce : ¬ (e.1.2 = i ∧ e.1.1 ≠ e.1.2) := fun h => h.2 hDiagonal
      rw [Stacked.node_addNode hRow, if_neg hOnce, add_zero]
  · next hOff =>
      rw [Stacked.node_addNode (by rwa [Stacked.size_addNode]), Stacked.node_addNode hRow,
        add_assoc]
      simp only [ne_eq, hOff, not_false_eq_true, and_true]

theorem size_foldl_addProducts (l : List (Coord × Mat3 K)) :
    (l.foldl (addProducts x) y).size = y.size := by
  induction l generalizing y with
  | nil => rfl
  | cons e l ih => rw [List.foldl_cons, ih, size_addProducts]

/-- Blocks that fit into the vector add their terms one after the other. -/
theorem node_foldl_addProducts {l : List (Coord × Mat3 K)}
    (hFits : ∀ e ∈ l, 3 * e.1.1 + 3 ≤ y.size ∧ 3 * e.1.2 + 3 ≤ y.size) (i : Nat) :
    Stacked.node (l.foldl (addProducts x) y) i =
      Stacked.node y i + (l.map (rowTerm x i)).sum := by
  induction l generalizing y with
  | nil => exact (add_zero _).symm
  | cons e l ih =>
      obtain ⟨⟨hRow, hColumn⟩, hRest⟩ := List.forall_mem_cons.mp hFits
      rw [List.foldl_cons, ih (by rwa [size_addProducts]), node_addProducts hRow hColumn,
        List.map_cons, List.sum_cons, add_assoc]

/-! ### Rows of the full matrix -/

variable (A : BlockMatrix K)

/-- A block of the matrix, as a sum over the stored blocks, of which at most one is at its place. -/
theorem block_eq_sum (i j : Nat) : A.block i j =
    (A.stored.map fun e => if e.1 = Coord.upper (i, j) then oriented i j e.2 else 0).sum := by
  rw [stored_eq_ofFn, List.map_ofFn, List.sum_ofFn]
  simp only [Function.comp_apply, ← Pattern.find?_eq_some_iff]
  cases hFind : A.pattern.find? i j with
  | some k => simp [block_of_find? hFind]
  | none =>
      have hMissing : ¬ A.pattern.contains i j = true := by simp [Pattern.contains, hFind]
      simp [block_of_not_contains hMissing]

/-- A stored block meets row `i` of the full matrix in its column if `i` is its row, and in its row
if `i` is its column. -/
theorem sum_oriented_mulVec {n i : Nat} {e : Coord × Mat3 K} (hUpper : e.1.1 ≤ e.1.2)
    (hLt : e.1.2 < n) (x : Array K) :
    ∑ j : Fin n, (if e.1 = Coord.upper (i, j) then oriented i j e.2 else 0).mulVec
      (Stacked.node x j) = rowTerm x i e := by
  obtain ⟨⟨p, q⟩, B⟩ := e
  simp only at hUpper hLt
  have hTerm (j : Nat) : (if (p, q) = Coord.upper (i, j) then oriented i j B else 0).mulVec
      (Stacked.node x j) =
        (if q = j then if p = i then B.mulVec (Stacked.node x j) else 0 else 0) +
          if p = j then
            if q = i ∧ p ≠ q then B.transpose.mulVec (Stacked.node x j) else 0 else 0 := by
    have hSame := Coord.upper_eq_iff (i := i) (j := j) hUpper
    -- of the two places of the block, only those in row `i` are left; on the diagonal they are one
    simp only [eq_comm (a := (p, q)), hSame, Mat3.ite_mulVec, oriented]
    grind [add_zero, zero_add]
  simp only [hTerm, Finset.sum_add_distrib]
  rw [sum_ite_val_eq hLt fun j => if p = i then B.mulVec (Stacked.node x j) else 0,
    sum_ite_val_eq (Nat.lt_of_le_of_lt hUpper hLt) fun j =>
      if q = i ∧ p ≠ q then B.transpose.mulVec (Stacked.node x j) else 0]
  rfl

/-- The product that is computed from the upper triangle is the product of the full matrix. -/
theorem sumProducts_eq (x : Array K) : A.sumProducts x = A.toDense.mulVec x := by
  have hBounds : ∀ e ∈ A.stored, e.1.1 ≤ e.1.2 ∧ e.1.2 < A.size := fun e he =>
    ⟨Pattern.upper_of_mem (mem_entries_of_mem_stored he),
      Pattern.lt_size_of_mem (mem_entries_of_mem_stored he)⟩
  refine Stacked.ext_node (n := A.size) ?_ (Dense.size_mulVec _ _) fun i hi => ?_
  · rw [sumProducts, size_foldl_addProducts, Array.size_replicate]
    rfl
  · rw [sumProducts, node_foldl_addProducts, Stacked.node_replicate, zero_add,
      A.node_toDense_mulVec x hi]
    · simp only [block_eq_sum, Mat3.list_sum_mulVec, List.map_map]
      rw [sum_list_sum]
      refine congrArg List.sum (List.map_congr_left fun e he => ?_)
      exact (sum_oriented_mulVec (hBounds e he).1 (hBounds e he).2 x).symm
    · intro e he
      have hLt := hBounds e he
      rw [Array.size_replicate, dim]
      omega

/-! ### Symmetry -/

/-- The form of a matrix with a symmetric diagonal is symmetric. -/
theorem HasSymmetricDiagonal.dot_mulVec_comm {A : BlockMatrix K} (hA : A.HasSymmetricDiagonal)
    (hx : x.size = A.dim) (hy : y.size = A.dim) :
    Stacked.dot y (A.toDense.mulVec x) = Stacked.dot x (A.toDense.mulVec y) := by
  have hForm {x y : Array K} (hy : y.size = A.dim) : Stacked.dot y (A.toDense.mulVec x) =
      ∑ i : Fin A.size, ∑ j : Fin A.size,
        (Stacked.node y i).dot ((A.block i j).mulVec (Stacked.node x j)) := by
    have hProduct : (A.toDense.mulVec x).size = 3 * A.size := Dense.size_mulVec _ _
    rw [Stacked.dot_eq_sum hy hProduct]
    refine Finset.sum_congr rfl fun i _ => ?_
    rw [A.node_toDense_mulVec x i.isLt, Vec3.dot_comm, Vec3.sum_dot]
    exact Finset.sum_congr rfl fun j _ => Vec3.dot_comm _ _
  rw [hForm hy, hForm hx, Finset.sum_comm]
  refine Finset.sum_congr rfl fun j _ => Finset.sum_congr rfl fun i _ => ?_
  rw [Mat3.dot_mulVec, hA.transpose_block, Vec3.dot_comm]

/-- Products with a symmetric block-sparse matrix. Whatever calls and evaluations have changed a
matrix since it was made from a pattern, its product with a vector of the right length is the
product of its dense form with the vector, and vectors of other lengths are rejected. The matrix is
symmetric as a form: `y` with the product of `x` gives the same as `x` with the product of `y`. -/
theorem mulVector_runChanges [ElementFamily K] {P : Pattern} {changes : List (Change K)}
    {A : BlockMatrix K} (hA : (ofPattern P).runChanges changes = A) :
    (∀ x, A.mulVector x = if x.size = A.dim then some (A.toDense.mulVec x) else none) ∧
    ∀ x y : Array K, x.size = A.dim → y.size = A.dim → ∃ u v,
      A.mulVector x = some u ∧ A.mulVector y = some v ∧ Stacked.dot y u = Stacked.dot x v := by
  have hMul (x : Array K) :
      A.mulVector x = if x.size = A.dim then some (A.toDense.mulVec x) else none := by
    rw [mulVector_eq, sumProducts_eq]
  have hDiagonal : A.HasSymmetricDiagonal := by
    obtain ⟨calls, hCalls⟩ := runChanges_eq_runCalls (ofPattern P) changes
    rw [← hA, hCalls]
    exact hasSymmetricDiagonal_runCalls P calls
  refine ⟨hMul, fun x y hx hy => ⟨_, _, (hMul x).trans (if_pos hx), (hMul y).trans (if_pos hy), ?_⟩⟩
  exact hDiagonal.dot_mulVec_comm hx hy

/-! ### A block that is stored once and used twice -/

/-- The first component of the first node, and that of the second node. -/
def firstUnit : Array ℚ := #[1, 0, 0, 0, 0, 0, 0, 0, 0]

def secondUnit : Array ℚ := #[0, 0, 0, 1, 0, 0, 0, 0, 0]

/-- The block above the diagonal gives a column to the first node, and the same block transposed
gives a row to the second node. A vector that is too short is rejected. -/
theorem mulVector_runChanges_wedge : ∃ A u v,
    (ofPattern wedge).runChanges wedgeChanges = A ∧
    A.mulVector secondUnit = some u ∧ A.mulVector firstUnit = some v ∧
    u = #[2, 2, 3, 0, 0, 0, 0, 0, 0] ∧ v = #[0, 0, 0, 2, 4, 7, 0, 0, 0] ∧
    A.toDense.mulVec secondUnit = u ∧ Stacked.dot firstUnit u = Stacked.dot secondUnit v ∧
    A.mulVector #[1] = none := by
  obtain ⟨A, hA⟩ : ∃ A, (ofPattern wedge).runChanges wedgeChanges = A := ⟨_, rfl⟩
  obtain ⟨hMul, hSymmetric⟩ := mulVector_runChanges hA
  have hDim : A.dim = 9 := by
    rw [← hA]
    decide +kernel
  obtain ⟨u, v, hu, hv, hSame⟩ := hSymmetric secondUnit firstUnit hDim.symm hDim.symm
  have hValues : A.mulVector secondUnit = some #[2, 2, 3, 0, 0, 0, 0, 0, 0] ∧
      A.mulVector firstUnit = some #[0, 0, 0, 2, 4, 7, 0, 0, 0] := by
    rw [← hA]
    decide +kernel
  have hFull := (hMul secondUnit).trans (if_pos hDim.symm)
  refine ⟨A, u, v, hA, hu, hv, Option.some.inj (hu.symm.trans hValues.1),
    Option.some.inj (hv.symm.trans hValues.2), Option.some.inj (hFull.symm.trans hu), hSame, ?_⟩
  rw [hMul, if_neg]
  rw [hDim]
  decide

end Elastodynamics.Sparse.BlockMatrix
