import Elastodynamics.Proofs.Algebra.Ordered
import Elastodynamics.Proofs.Algebra.Inverse
import Elastodynamics.Proofs.Model.Cells
import Elastodynamics.Proofs.Model.Sums
/-!
Elements in their reference configuration. In the reference positions of its nodes, where a placed
element has its vertices, its deformation gradients are the identity.
-/
namespace Elastodynamics.Element

variable {S : Shape}

variable {K : Type} [ExactScalar K] {e : Element S K} {positions : Array (Vec3 K)}

/-- Stacked reference positions, read at the nodes of a placed element, are its vertices. -/
theorem gather_of_placed {X : Vector (Vec3 K) S.nodeCount}
    (h : ∀ a, positions[e.nodes.get a]? = some (X.get a)) :
    Stacked.gather e.nodes (Stacked.ofNodes positions.toList) = X := by
  refine vector_ext_get fun a => ?_
  obtain ⟨hLt, hNode⟩ := Array.getElem?_eq_some_iff.mp (h a)
  rw [Stacked.get_gather, Stacked.node_ofNodes (by simpa using hLt), Array.getElem_toList, hNode]

/-- The gradients at a quadrature point give the identity for the vertices they belong to. -/
theorem fieldGradient_of_quadraturePoint {X : Vector (Vec3 K) S.nodeCount} {w : K} {ξ : Vec3 K}
    {q : QuadraturePoint S.nodeCount K} (h : quadraturePoint X w ξ = .ok q) :
    fieldGradient X q.gradients = 1 := by
  obtain ⟨B, hInverse, rfl⟩ := quadraturePoint_eq_ok h
  rw [← Mat3.mul_of_inverse?_eq_some hInverse, fieldGradient, fieldGradient, ← Fin.sum_univ_def,
    ← Fin.sum_univ_def, Finset.sum_mul]
  simp only [vector_get_map, Mat3.outer_mul]

/-- Where its vertices are, an element is not deformed. -/
theorem MadeFrom.deformation_eq_one [Quadrature.Rules K] {X : Vector (Vec3 K) S.nodeCount}
    {masses : List (K × Vector K S.nodeCount)} (h : e.MadeFrom X masses)
    {q : QuadraturePoint S.nodeCount K} (hq : q ∈ e.points) : deformation X q = 1 := by
  obtain ⟨_, _, hPoint⟩ := h.exists_quadraturePoint q hq
  exact fieldGradient_of_quadraturePoint hPoint

/-- In its reference positions, an element is not deformed. -/
theorem deformation_eq_one_of_placed [Quadrature.Rules K] (h : S.solid.Placed positions e)
    {q : QuadraturePoint S.nodeCount K} (hq : q ∈ e.points) :
    deformation (Stacked.gather e.nodes (Stacked.ofNodes positions.toList)) q = 1 := by
  obtain ⟨X, _, hMade, hPositions⟩ := h
  obtain ⟨_, _, _, _, hVertices, hParts⟩ := ofVertices_eq_ok hMade
  cases Vector.toList_inj.mp hVertices
  rw [gather_of_placed hPositions]
  exact hParts.deformation_eq_one hq

/-- An element can be made from vertices that give no degenerate Jacobian. -/
theorem exists_ofVertices [Quadrature.Rules K] (nodes : Vector Nat S.nodeCount)
    {X : Vector (Vec3 K) S.nodeCount} (properties : Properties K)
    (hDet : ∀ ξ, (fieldGradient X (S.gradients ξ)).det ≠ 0)
    (hRegular : ∀ ξ, isDegenerate (fieldGradient X (S.gradients ξ)) = false) :
    ∃ e, ofVertices nodes X.toList properties = .ok e := by
  have hPoint (w : K) (ξ : Vec3 K) : ∃ q, quadraturePoint X w ξ = .ok q := by
    simp only [quadraturePoint, hRegular ξ, Mat3.inverse?_of_ne (hDet ξ)]
    exact ⟨_, rfl⟩
  have hMass (w : K) (ξ : Vec3 K) : ∃ p, massPoint X properties.density w ξ = .ok p := by
    simp only [massPoint, hRegular ξ]
    exact ⟨_, rfl⟩
  obtain ⟨points, hPoints⟩ :=
    exists_mapM_eq_ok (l := S.stiffnessRule.nodes) fun p _ => hPoint p.1 p.2
  obtain ⟨masses, hMasses⟩ := exists_mapM_eq_ok (l := S.massRule.nodes) fun p _ => hMass p.1 p.2
  exact ⟨_, ofVertices_eq_ok_iff.mpr ⟨X, rfl, points, hPoints, masses, hMasses, rfl⟩⟩

section

variable [LinearOrder K] [IsStrictOrderedRing K] [OrderedScalar K] {J : Mat3 K}

/-- A Jacobian is degenerate if its determinant is small, relative to the cube of its norm. -/
theorem isDegenerate_iff : isDegenerate J = true ↔
    |J.det| ≤ 100 * Scalar.epsilon * (J.norm * J.norm * J.norm) := by
  rw [isDegenerate, OrderedScalar.isFinite_eq, Bool.not_true, Bool.false_or, OrderedScalar.le_iff,
    Scalar.abs_eq, Scalar.ofNat_eq_cast, Nat.cast_ofNat]

/-- Where scalars have no relative spacing, a Jacobian is degenerate only if its determinant is
zero. -/
theorem isDegenerate_eq_false (hEpsilon : (Scalar.epsilon : K) = 0) (h : J.det ≠ 0) :
    isDegenerate J = false := by
  rw [← Bool.not_eq_true, isDegenerate_iff, hEpsilon, mul_zero, zero_mul, not_le]
  exact abs_pos.mpr h

end

end Elastodynamics.Element
