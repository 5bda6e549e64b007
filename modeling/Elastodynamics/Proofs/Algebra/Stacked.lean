import Mathlib.Tactic.FinCases
import Elastodynamics.Proofs.Algebra.Vectors
import Elastodynamics.Algebra.Dense
import Elastodynamics.Algebra.Stacked
import Elastodynamics.Proofs.Sparse.Dense
/-!
Stacked vectors over exact scalars. A stacked vector is told by its nodes; sums, differences and the
product with a dense matrix are those of the components, and node by node they are the sums,
differences and products of space vectors with the node blocks of the matrix.
-/
namespace Elastodynamics

namespace Stacked

/-! ### Nodes -/

section

variable {α : Type} [Scalar α]

@[simp] theorem get_node (x : Array α) (i : Nat) (p : Fin 3) :
    (node x i).get p = (x[3 * i + p.val]?).getD 0 := by
  rw [node, Vec3.get_ofFn]

/-- A stacked vector is told by its nodes. -/
theorem ext_node {n : Nat} {x y : Array α} (hx : x.size = 3 * n) (hy : y.size = 3 * n)
    (h : ∀ i < n, node x i = node y i) : x = y := by
  refine Array.ext (hx.trans hy.symm) fun k hk hk' => ?_
  have hNode := congrArg (fun v => v.get (Dense.component k)) (h (k / 3) (by omega))
  simp only [get_node, ← Dense.eq_component k] at hNode
  rwa [Array.getElem?_eq_getElem hk, Array.getElem?_eq_getElem hk'] at hNode

theorem node_replicate (n i : Nat) : node (Array.replicate n (0 : α)) i = 0 := by
  refine Vec3.ext_get fun p => ?_
  rw [get_node, Array.getElem?_replicate]
  split <;> match p with
    | 0 | 1 | 2 => rfl

/-- The stacked vector of a list has its vectors as nodes. -/
theorem node_ofNodes {nodes : List (Vec3 α)} {i : Nat} (h : i < nodes.length) :
    node (ofNodes nodes) i = nodes[i] := by
  refine Vec3.ext_get fun p => ?_
  rw [get_node, ofNodes, List.getElem?_toArray]
  induction nodes generalizing i with
  | nil => cases h
  | cons v nodes ih =>
      rw [List.flatMap_cons]
      cases i with
      | zero =>
          fin_cases p <;> rfl
      | succ i =>
          have hTail := ih (Nat.lt_of_succ_lt_succ h)
          have hIndex : 3 * (i + 1) + p.val = v.toList.length + (3 * i + p.val) := by
            rw [Vec3.length_toList]
            omega
          rw [hIndex, List.getElem?_append_right (Nat.le_add_right _ _), Nat.add_sub_cancel_left,
            hTail, List.getElem_cons_succ]

/-- The vector `v` repeated for each of `n` nodes. -/
def uniform (n : Nat) (v : Vec3 α) : Array α := ofNodes (List.replicate n v)

omit [Scalar α] in
theorem size_uniform (n : Nat) (v : Vec3 α) : (uniform n v).size = 3 * n := by
  rw [uniform, size_ofNodes, List.length_replicate]

theorem node_uniform {n i : Nat} (h : i < n) (v : Vec3 α) : node (uniform n v) i = v := by
  rw [uniform, node_ofNodes (by simpa using h), List.getElem_replicate]

/-! ### Pieces -/

variable {x y : Array α} {k : Nat}

theorem node_extract_of_lt {i : Nat} (h : i < k) : node (x.extract 0 (3 * k)) i = node x i := by
  apply Vec3.ext_get
  intro p
  rw [get_node, get_node, Array.getElem?_extract, Nat.zero_add]
  split
  · rfl
  · rw [Array.getElem?_eq_none (by omega)]

theorem node_extract (x : Array α) (k i : Nat) :
    node (x.extract (3 * k)) i = node x (k + i) := by
  apply Vec3.ext_get
  intro p
  have hIndex : 3 * (k + i) + p.val = 3 * k + (3 * i + p.val) := by omega
  rw [get_node, get_node, Array.getElem?_extract, hIndex]
  split
  · rfl
  · rw [Array.getElem?_eq_none (by omega)]

theorem node_append_of_lt {i : Nat} (hx : x.size = 3 * k) (h : i < k) :
    node (x ++ y) i = node x i := by
  apply Vec3.ext_get
  intro p
  rw [get_node, get_node, Array.getElem?_append_left (by omega)]

theorem node_append (hx : x.size = 3 * k) (i : Nat) : node (x ++ y) (k + i) = node y i := by
  apply Vec3.ext_get
  intro p
  have hIndex : 3 * (k + i) + p.val - x.size = 3 * i + p.val := by omega
  rw [get_node, get_node, Array.getElem?_append_right (by omega), hIndex]

end

variable {K : Type} [ExactScalar K]

/-- An addition to a node changes this node only. -/
theorem node_addNode {x : Array K} {i : Nat} (h : 3 * i + 3 ≤ x.size) (v : Vec3 K) (j : Nat) :
    node (addNode x i v) j = node x j + if i = j then v else 0 := by
  have hList : List.finRange 3 = [0, 1, 2] := rfl
  have hIndex (p q : Fin 3) : 3 * i + p.val = 3 * j + q.val ↔ i = j ∧ p = q := by omega
  refine Vec3.ext_get fun q => ?_
  rw [get_node, addNode, hList]
  simp only [List.foldl_cons, List.foldl_nil, Array.getElem?_modify, hIndex]
  by_cases hij : i = j
  · subst hij
    have hLt : 3 * i + q.val < x.size := by omega
    have hGet : x[3 * i + q.val]? = some x[3 * i + q.val] := Array.getElem?_eq_getElem hLt
    rw [if_pos rfl, Vec3.get_add, get_node, hGet]
    fin_cases q <;> simp
  · simp [hij]

/-! ### Sums and products -/

def add (x y : Array K) : Array K := x.zipWith (· + ·) y

def sub (x y : Array K) : Array K := x.zipWith (· - ·) y

/-- The point that is reached from `x` in the direction `d` at time `t`. -/
def along (x d : Array K) (t : K) : Array K := x.zipWith (fun p v => p + t * v) d

/-- The sum of the products of corresponding components. -/
def dot (x y : Array K) : K := (x.zipWith (· * ·) y).toList.sum

variable {n : Nat} {x y d : Array K}

theorem size_add (hx : x.size = n) (hy : y.size = n) : (add x y).size = n := by
  simp [add, hx, hy]

theorem size_along (hx : x.size = n) (hd : d.size = n) (t : K) : (along x d t).size = n := by
  simp [along, hx, hd]

/-- Vectors of one size are combined component by component, and beyond their ends as zeros. -/
private theorem getD_zipWith (hSize : x.size = y.size) {f : K → K → K} (hf : f 0 0 = 0) (k : Nat) :
    ((x.zipWith f y)[k]?).getD 0 = f ((x[k]?).getD 0) ((y[k]?).getD 0) := by
  rw [Array.getElem?_zipWith]
  by_cases hk : k < x.size
  · rw [Array.getElem?_eq_getElem hk, Array.getElem?_eq_getElem (hSize ▸ hk)]
    rfl
  · rw [Array.getElem?_eq_none (by omega), Array.getElem?_eq_none (by omega)]
    exact hf.symm

theorem node_add (hSize : x.size = y.size) (i : Nat) : node (add x y) i = node x i + node y i := by
  refine Vec3.ext_get fun p => ?_
  simp [add, getD_zipWith hSize]

theorem node_sub (hSize : x.size = y.size) (i : Nat) : node (sub x y) i = node x i - node y i := by
  refine Vec3.ext_get fun p => ?_
  simp [sub, getD_zipWith hSize]

theorem node_along (hSize : x.size = d.size) (t : K) (i : Nat) :
    node (along x d t) i = node x i + (node d i).scale t := by
  refine Vec3.ext_get fun p => ?_
  simp [along, getD_zipWith hSize, mul_comm]

/-- A sum over scalar indices is a sum over nodes and their components. -/
theorem sum_dofs {M : Type} [AddCommMonoid M] (f : Fin (3 * n) → M) :
    ∑ k, f k = ∑ i, ∑ p, f (Dense.dofOf i p) := by
  let split : Fin (3 * n) ≃ Fin n × Fin 3 :=
    ⟨fun k => (Dense.nodeOf k, Dense.componentOf k), fun c => Dense.dofOf c.1 c.2,
      Dense.dofOf_nodeOf, fun c => Prod.ext (Dense.nodeOf_dofOf _ _) (Dense.componentOf_dofOf _ _)⟩
  rw [← Fintype.sum_prod_type']
  refine Fintype.sum_equiv split _ _ fun k => ?_
  exact congrArg f (Dense.dofOf_nodeOf k).symm

/-- The product of two stacked vectors is the sum of the products of their nodes. -/
theorem dot_eq_sum (hx : x.size = 3 * n) (hy : y.size = 3 * n) :
    dot x y = ∑ i : Fin n, (node x i).dot (node y i) := by
  have hLength : (x.zipWith (· * ·) y).toList.length = 3 * n := by simp [hx, hy]
  have hNode (i : Fin n) : (node x i).dot (node y i) =
      ∑ p : Fin 3, (node x i).get p * (node y i).get p := by
    rw [Fin.sum_univ_three]
    rfl
  rw [dot, ← Fin.sum_univ_getElem, ← Fintype.sum_equiv (finCongr hLength.symm) _ _ fun _ => rfl,
    sum_dofs]
  refine Finset.sum_congr rfl fun i _ => ?_
  rw [hNode]
  refine Finset.sum_congr rfl fun p _ => ?_
  have hx' : 3 * i.val + p.val < x.size := by omega
  have hy' : 3 * i.val + p.val < y.size := by omega
  rw [get_node, get_node, Array.getElem?_eq_getElem hx', Array.getElem?_eq_getElem hy']
  simp [Dense.dofOf]

end Stacked

/-! ### Products with a dense matrix -/

namespace Dense

variable {K : Type} [ExactScalar K] {m n : Nat}

/-- The product with a vector, whose components beyond its end count as zeros. -/
def mulVec (A : Dense K m n) (x : Array K) : Array K :=
  .ofFn fun i => ∑ j : Fin n, A.get i j * (x[j.val]?).getD 0

theorem size_mulVec (A : Dense K m n) (x : Array K) : (A.mulVec x).size = m := Array.size_ofFn

/-- A node of the product is the sum of the products of the node blocks in its row. -/
theorem node_mulVec (A : Dense K (3 * m) (3 * n)) (x : Array K) (i : Fin m) :
    Stacked.node (A.mulVec x) i =
      ∑ j : Fin n, (A.blockAt i j).mulVec (Stacked.node x j) := by
  refine Vec3.ext_get fun p => ?_
  have hRow : 3 * i.val + p.val < (A.mulVec x).size := by
    rw [size_mulVec]
    omega
  have hBlock (j : Fin n) (q : Fin 3) :
      (A.blockAt i j).get p q = A.get (dofOf i p) (dofOf j q) := by
    have hIn : 3 * i.val + p.val < 3 * m ∧ 3 * j.val + q.val < 3 * n := by omega
    rw [blockAt, Mat3.get_ofFn, get?, dif_pos hIn]
    rfl
  rw [Stacked.get_node, Array.getElem?_eq_getElem hRow, Vec3.get_sum]
  simp only [mulVec, Array.getElem_ofFn, Option.getD_some, Stacked.sum_dofs, Mat3.get_mulVec,
    hBlock, Stacked.get_node]
  rfl

end Dense

/-- A node of the product with a block-sparse matrix is a sum over the blocks in its row. -/
theorem Sparse.BlockMatrix.node_toDense_mulVec {K : Type} [ExactScalar K]
    (A : Sparse.BlockMatrix K) (x : Array K) {i : Nat} (hi : i < A.size) :
    Stacked.node (A.toDense.mulVec x) i =
      ∑ j : Fin A.size, (A.block i j).mulVec (Stacked.node x j) := by
  have hRow : Stacked.node (A.toDense.mulVec x) i =
      ∑ j : Fin A.size, (A.toDense.blockAt i j).mulVec (Stacked.node x j) :=
    A.toDense.node_mulVec x (⟨i, hi⟩ : Fin A.size)
  simpa only [blockAt_toDense] using hRow

end Elastodynamics
