import Elastodynamics.Proofs.Algebra.Matrices
import Elastodynamics.Proofs.Algebra.Stacked
import Elastodynamics.Proofs.Assembly
/-!
Sums over the elements of a model. Over exact scalars a residual that is complete is, node by node,
the sum of the residuals of the elements at the node, and an energy is the sum of the energies of
the elements. The product of a sum of scattered element matrices with a vector is what the elements
give for the vector at their own nodes.
-/
namespace Elastodynamics

open Sparse

variable {K : Type} [ExactScalar K]

/-- Sums over indices and over the members of a list may be exchanged. -/
theorem sum_list_sum {ι β M : Type} [Fintype ι] [AddCommMonoid M] (l : List β) (f : ι → β → M) :
    ∑ j, (l.map (f j)).sum = (l.map fun b => ∑ j, f j b).sum := by
  induction l with
  | nil => simp
  | cons b l ih => simp [Finset.sum_add_distrib, ih]

/-- Of a sum over the numbers below `n`, only the term of one of them is left. -/
theorem sum_ite_val_eq {M : Type} [AddCommMonoid M] {n k : Nat} (hk : k < n) (f : Nat → M) :
    ∑ i : Fin n, (if k = i then f i else 0) = f k := by
  rw [Finset.sum_eq_single ⟨k, hk⟩]
  · exact if_pos rfl
  · intro i _ hi
    exact if_neg fun h => hi (Fin.ext h.symm)
  · intro h
    exact absurd (Finset.mem_univ _) h

namespace Stacked

variable {n : Nat} (nodes : Vector Nat n)

theorem get_gather (x : Array K) (a : Fin n) : (gather nodes x).get a = node x (nodes.get a) :=
  vector_get_map _ _ a

/-- What space vectors for the nodes of an element stand for at global node `i`: vector `a` where
node `a` of the element is `i`. -/
def spread (v : Fin n → Vec3 K) (i : Nat) : Vec3 K := ∑ a, if nodes.get a = i then v a else 0

theorem spread_add (u v : Fin n → Vec3 K) (i : Nat) :
    spread nodes (fun a => u a + v a) i = spread nodes u i + spread nodes v i := by
  rw [spread, spread, spread, ← Finset.sum_add_distrib]
  refine Finset.sum_congr rfl fun a _ => ?_
  split
  · rfl
  · exact (add_zero 0).symm

/-- The work of spread forces is the work of the forces at the nodes of the element. -/
theorem sum_spread_dot {k : Nat} (hLt : ∀ a, nodes.get a < k) (v : Fin n → Vec3 K)
    (y : Nat → Vec3 K) :
    ∑ i : Fin k, (spread nodes v i).dot (y i) = ∑ a, (v a).dot (y (nodes.get a)) := by
  simp only [spread, Vec3.sum_dot, Vec3.ite_dot]
  rw [Finset.sum_comm]
  exact Finset.sum_congr rfl fun a _ => sum_ite_val_eq (hLt a) fun i => (v a).dot (y i)

/-- A vector is added at every node of the element. -/
theorem node_scatter {x : Array K} (hFits : ∀ a, 3 * nodes.get a + 3 ≤ x.size)
    (v : Vector (Vec3 K) n) (i : Nat) :
    node (scatter nodes v x) i = node x i + spread nodes v.get i := by
  have hPairs : nodes.toList.zip v.toList =
      (List.finRange n).map fun a => (nodes.get a, v.get a) := by
    apply List.ext_getElem
    · simp
    · intro k h1 h2
      simp [Vector.get]
  have hFold (l : List (Fin n)) {y : Array K} (hSize : ∀ a, 3 * nodes.get a + 3 ≤ y.size) :
      node ((l.map fun a => (nodes.get a, v.get a)).foldl (fun x p => addNode x p.1 p.2) y) i =
        node y i + (l.map fun a => if nodes.get a = i then v.get a else 0).sum := by
    induction l generalizing y with
    | nil => exact (add_zero _).symm
    | cons a l ih =>
        rw [List.map_cons, List.foldl_cons, ih (by simpa using hSize),
          node_addNode (hSize a), List.map_cons, List.sum_cons, add_assoc]
  rw [scatter, hPairs, hFold _ hFits, spread, Fin.sum_univ_def]

omit [ExactScalar K] in
theorem size_scatter [Scalar K] (v : Vector (Vec3 K) n) (x : Array K) :
    (scatter nodes v x).size = x.size := by
  have hFold (l : List (Nat × Vec3 K)) (y : Array K) :
      (l.foldl (fun x p => addNode x p.1 p.2) y).size = y.size := by
    induction l generalizing y with
    | nil => rfl
    | cons p l ih => rw [List.foldl_cons, ih, size_addNode]
  exact hFold _ x

/-- The product of a scattered matrix with a vector: each row of the element goes to its node. -/
theorem sum_scattered_mulVec {k : Nat} (hLt : ∀ a, nodes.get a < k) (L : Dense (Mat3 K) n n)
    (y : Nat → Vec3 K) (i : Nat) :
    ∑ j : Fin k, (L.scattered nodes i j).mulVec (y j) =
      spread nodes (fun b => ∑ a, (L.get b a).mulVec (y (nodes.get a))) i := by
  -- the column of a block is the node of exactly one index
  have hColumn (a b : Fin n) :
      ∑ j : Fin k, (if nodes.get a = i ∧ nodes.get b = j then L.get a b else 0).mulVec (y j) =
        if nodes.get a = i then (L.get a b).mulVec (y (nodes.get b)) else 0 := by
    by_cases h : nodes.get a = i
    · simp only [h, true_and, Mat3.ite_mulVec, if_true]
      exact sum_ite_val_eq (hLt b) fun j => (L.get a b).mulVec (y j)
    · simp [h]
  simp only [Dense.scattered, Mat3.sum_mulVec]
  rw [Finset.sum_comm, spread]
  refine Finset.sum_congr rfl fun a _ => ?_
  rw [Finset.sum_comm]
  simp only [hColumn]
  split
  · rfl
  · exact Finset.sum_const_zero

end Stacked

namespace TypedModel

section

variable [ElementFamily K] {κ : Kind K} {config : Config K} {x : Motion K}

/-! ### Residuals -/

/-- A residual that is complete is what the vector held before and the residuals of the elements. -/
theorem node_addResiduals {k : Nat} {l : List ((kind κ).Element × (kind κ).Data)}
    {r r' : Array K} (hFits : ∀ p ∈ l, ∀ a, 3 * ((kind κ).nodes p.1).get a + 3 ≤ r.size)
    (h : addResiduals config x k l r = (r', .ok ())) :
    r'.size = r.size ∧ ∀ i, Stacked.node r' i = Stacked.node r i + (l.map fun p =>
      Stacked.spread ((kind κ).nodes p.1) ((kind κ).residual p.1 p.2
        (x.restrict ((kind κ).nodes p.1)) config.gravity).get i).sum := by
  induction l generalizing k r with
  | nil =>
      cases h
      exact ⟨rfl, fun i => (add_zero _).symm⟩
  | cons p l ih =>
      obtain ⟨e, data⟩ := p
      simp only [addResiduals] at h
      split at h
      · cases h
      · have hSize := Stacked.size_scatter ((kind κ).nodes e)
          ((kind κ).residual e data (x.restrict ((kind κ).nodes e)) config.gravity) r
        obtain ⟨hSize', hNode⟩ := ih (fun p hp a => hSize ▸ hFits p (List.mem_cons_of_mem _ hp) a) h
        refine ⟨hSize'.trans hSize, fun i => ?_⟩
        rw [hNode, Stacked.node_scatter _ (hFits _ List.mem_cons_self), List.map_cons,
          List.sum_cons, add_assoc]

variable {m : TypedModel K κ}

omit [ExactScalar K] in
theorem WellFormed.nodes_lt (hm : m.WellFormed) {e : (kind κ).Element} (he : e ∈ m.elements)
    (a : Fin (kind κ).nodeCount) : ((kind κ).nodes e).get a < m.referencePositions.size :=
  hm.node_lt he (Vector.mem_toList_iff.mpr (Vector.getElem_mem a.isLt))

/-- The residual of a model is the sum of the residuals of its elements. -/
theorem node_residualOf (hm : m.WellFormed) {r r' : Array K}
    (hr : r.size = 3 * m.referencePositions.size)
    (h : (Model.typed m).residualOf x r = (r', .ok ())) :
    r'.size = 3 * m.referencePositions.size ∧ ∀ i, Stacked.node r' i =
      (m.elements.toList.map fun e => Stacked.spread ((kind κ).nodes e)
        ((kind κ).residual e ((kind κ).dataAt e x) (x.restrict ((kind κ).nodes e))
          m.config.gravity).get i).sum := by
  rw [Model.residualOf, hr] at h
  obtain ⟨hSize, hNode⟩ := node_addResiduals (fun p hp a => by
    obtain ⟨e, he, rfl⟩ := List.mem_map.mp hp
    have hLt := hm.nodes_lt (by simpa using he) a
    rw [Array.size_replicate]
    show 3 * ((kind κ).nodes e).get a + 3 ≤ _
    omega) h
  refine ⟨hSize.trans Array.size_replicate, fun i => ?_⟩
  rw [hNode, Stacked.node_replicate, elementsAt, List.map_map]
  exact zero_add _

/-! ### Tangent matrices -/

theorem size_tangentOf (hm : m.WellFormed) {w : Weights K} {A : BlockMatrix K}
    (h : (Model.typed m).tangentOf x w (Model.typed m).makeTangent = (A, .ok ())) :
    A.size = m.referencePositions.size := by
  have hOutcome := Model.tangentOf_outcome (.typed hm) x w (Model.typed m).makeTangent
    fun _ hc => hc
  rw [h] at hOutcome
  cases hOutcome with
  | added hPattern =>
      rw [BlockMatrix.size, hPattern]
      exact hm.size_pattern

/-! ### Energies -/

theorem addEnergies_eq_ok {k : Nat} {l : List ((kind κ).Element × (kind κ).Data)} {y z : K}
    (h : addEnergies config k l y = .ok z) :
    z = y + (l.map fun p => (kind κ).energy p.1 p.2).sum := by
  induction l generalizing k y with
  | nil =>
      cases h
      exact (add_zero _).symm
  | cons p l ih =>
      obtain ⟨e, data⟩ := p
      simp only [addEnergies] at h
      split at h
      · cases h
      · rw [ih h, List.map_cons, List.sum_cons, add_assoc]

/-- The energy of a model is the sum of the energies of its elements. -/
theorem energyOf_eq_ok {z : K} (h : (Model.typed m).energyOf x = .ok z) :
    z = (m.elements.toList.map fun e => (kind κ).energy e ((kind κ).dataAt e x)).sum := by
  rw [Model.energyOf] at h
  rw [addEnergies_eq_ok h, zero_add, elementsAt, List.map_map]
  rfl

end

/-! ### Solid elements -/

variable [Quadrature.Rules K] {S : Shape} {m : TypedModel K S} {x : Motion K}

theorem node_residualOf_solid (hm : m.WellFormed) {r r' : Array K}
    (hr : r.size = 3 * m.referencePositions.size)
    (h : (Model.typed m).residualOf x r = (r', .ok ())) :
    r'.size = 3 * m.referencePositions.size ∧ ∀ i, Stacked.node r' i =
      (m.elements.toList.map fun e : Element S K => Stacked.spread e.nodes
        (e.residual (e.computeData (Stacked.gather e.nodes x.positions)) (x.restrict e.nodes)
          m.config.gravity).get i).sum :=
  node_residualOf hm hr h

theorem energyOf_eq_ok_solid {z : K} (h : (Model.typed m).energyOf x = .ok z) :
    z = (m.elements.toList.map fun e : Element S K =>
      (e.computeData (Stacked.gather e.nodes x.positions)).energy).sum :=
  energyOf_eq_ok h

/-- The tangent matrix of a model, applied to a vector, is what its elements give. -/
theorem node_mulVec_tangentOf (hm : m.WellFormed) {w : Weights K} {A : BlockMatrix K}
    (h : (Model.typed m).tangentOf x w (Model.typed m).makeTangent = (A, .ok ()))
    (y : Array K) {i : Nat} (hi : i < m.referencePositions.size) :
    Stacked.node (A.toDense.mulVec y) i = (m.elements.toList.map fun e : Element S K =>
      Stacked.spread e.nodes (fun b => ∑ a, ((elementTangent x.positions w e).get b a).mulVec
        (Stacked.node y (e.nodes.get a))) i).sum := by
  have hSize := size_tangentOf hm h
  have hBlock (j : Nat) : A.block i j = (m.elements.toList.map fun e : Element S K =>
      (elementTangent x.positions w e).scattered e.nodes i j).sum := by
    rw [block_tangentOf hm h, Model.makeTangent, BlockMatrix.block_ofPattern, zero_add]
  rw [A.node_toDense_mulVec y (hSize ▸ hi)]
  simp only [hBlock, Mat3.list_sum_mulVec, List.map_map]
  rw [sum_list_sum]
  refine congrArg List.sum (List.map_congr_left fun e he => ?_)
  rw [← Stacked.sum_scattered_mulVec (k := A.size) _ fun a => ?_]
  · rfl
  · rw [hSize]
    exact hm.nodes_lt (by simpa using he) a

end TypedModel

end Elastodynamics
