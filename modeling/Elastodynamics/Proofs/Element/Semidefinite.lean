import Elastodynamics.Proofs.Algebra.Semidefinite
import Elastodynamics.Proofs.Element.Derivatives
import Elastodynamics.Proofs.Shape
/-!
Quadratic forms of the matrices of an element. The form of the mass matrix is a sum of squares over
the points for masses or, if it is lumped, over the nodes. The form of the stiffness matrix is the
second variation of the energy: at each quadrature point, the change of stress that a field causes
does work on the gradient of this field.
-/
namespace Elastodynamics

variable {K : Type} [ExactScalar K] {S : Shape} {n : Nat}

/-! ### Forms of node blocks -/

/-- The quadratic form of a matrix of node blocks. -/
def blockForm (L : Fin n → Fin n → Mat3 K) (u : Fin n → Vec3 K) : K :=
  ∑ b, (∑ a, (L b a).mulVec (u a)).dot (u b)

theorem blockForm_add (L L' : Fin n → Fin n → Mat3 K) (u : Fin n → Vec3 K) :
    blockForm (fun b a => L b a + L' b a) u = blockForm L u + blockForm L' u := by
  simp only [blockForm, Mat3.add_mulVec, Finset.sum_add_distrib, Vec3.add_dot]

theorem blockForm_scale (L : Fin n → Fin n → Mat3 K) (s : K) (u : Fin n → Vec3 K) :
    blockForm (fun b a => (L b a).scale s) u = blockForm L u * s := by
  simp only [blockForm, Mat3.scale_mulVec, ← Vec3.sum_scale, Vec3.scale_dot, ← Finset.sum_mul]

theorem blockForm_list_sum {β : Type} (l : List β) (L : β → Fin n → Fin n → Mat3 K)
    (u : Fin n → Vec3 K) :
    blockForm (fun b a => (l.map fun q => L q b a).sum) u =
      (l.map fun q => blockForm (L q) u).sum := by
  simp only [blockForm, Mat3.list_sum_mulVec, List.map_map, Function.comp_def, sum_list_sum,
    Vec3.list_sum_dot]

/-- The form of contractions is the work of the change of stress on its own direction. -/
theorem blockForm_contraction (law : Law) {p : Lame K} {F : Mat3 K} {D : Mat3 K →+ Mat3 K}
    (hOuter : ∀ a b d, (D (Mat3.outer d b)).mulVec a = (law.contraction p F a b).mulVec d)
    (g u : Fin n → Vec3 K) :
    blockForm (fun b a => law.contraction p F (g b) (g a)) u =
      (D (∑ a, Mat3.outer (u a) (g a))).dot (∑ a, Mat3.outer (u a) (g a)) := by
  simp only [blockForm, ← hOuter, ← Mat3.sum_mulVec, ← map_sum, Mat3.dot_sum, Mat3.dot_outer]

/-- The form of products of values at nodes is the square of the value that they give a field. -/
theorem blockForm_products (φ : Fin n → K) (s : K) (u : Fin n → Vec3 K) :
    blockForm (fun b a => Mat3.diagonal (φ b * φ a * s)) u =
      (∑ a, (u a).scale (φ a)).dot (∑ a, (u a).scale (φ a)) * s := by
  have hRow (b : Fin n) : ∑ a, (u a).scale (φ b * φ a * s) =
      (∑ a, (u a).scale (φ a)).scale (φ b * s) := by
    rw [Vec3.sum_scale]
    refine Finset.sum_congr rfl fun a _ => ?_
    rw [Vec3.scale_scale, mul_right_comm, mul_comm]
  simp only [blockForm, Mat3.diagonal_mulVec, hRow, Vec3.scale_dot]
  rw [Vec3.sum_dot _ _ fun a => (u a).scale (φ a), Finset.sum_mul]
  refine Finset.sum_congr rfl fun b _ => ?_
  rw [Vec3.scale_dot, Vec3.dot_comm, mul_assoc]

namespace Element

/-! ### Forms of element matrices -/

/-- The form of consistent masses is a sum of squares of the values that the field has at the
points. -/
theorem blockForm_consistentMass (masses : List (K × Vector K n)) (u : Fin n → Vec3 K) :
    blockForm (fun b a => Mat3.diagonal ((consistentMass masses).get b a)) u =
      (masses.map fun (m, φ) =>
        (∑ a, (u a).scale (φ.get a)).dot (∑ a, (u a).scale (φ.get a)) * m).sum := by
  have hSum (b a : Fin n) : Mat3.diagonal ((consistentMass masses).get b a) =
      (masses.map fun (m, φ) => Mat3.diagonal (φ.get b * φ.get a * m)).sum := by
    rw [consistentMass, Dense.get_ofFn, Mat3.diagonal_list_sum, List.map_map]
    rfl
  simp only [hSum]
  rw [blockForm_list_sum masses fun q b a => Mat3.diagonal (q.2.get b * q.2.get a * q.1)]
  simp only [blockForm_products]

/-- The form of lumped masses is a sum of squares of the values at the nodes. -/
theorem blockForm_lumped (M : Dense K n n) (u : Fin n → Vec3 K) :
    blockForm (fun b a => Mat3.diagonal (M.lumped.get b a)) u =
      ∑ b, (u b).dot (u b) * M.rowSum b := by
  refine Finset.sum_congr rfl fun b _ => ?_
  simp only [Mat3.diagonal_mulVec, Dense.lumped, Dense.get_ofFn]
  rw [Finset.sum_eq_single b]
  · rw [if_pos rfl, Vec3.scale_dot]
  · intro a _ ha
    rw [if_neg ha.symm, Vec3.scale_zero]
  · exact fun h => absurd (Finset.mem_univ b) h

/-- The form of a weighted tangent matrix is the weighted sum of the forms. -/
theorem blockForm_tangentMatrix (e : Element S K) (data : ElementData S.nodeCount K)
    (w : Weights K) (u : Fin S.nodeCount → Vec3 K) :
    blockForm (e.tangentMatrix data w).get u =
      blockForm (stiffnessMatrix data).get u * w.stiffness
        + (blockForm e.massMatrix.get u * e.properties.damping.massCoefficient
          + blockForm (stiffnessMatrix data).get u * e.properties.damping.stiffnessCoefficient)
            * w.damping
        + blockForm e.massMatrix.get u * w.mass := by
  have hTangent : (e.tangentMatrix data w).get = fun b a =>
      ((stiffnessMatrix data).get b a).scale w.stiffness
        + ((e.massMatrix.get b a).scale e.properties.damping.massCoefficient
          + ((stiffnessMatrix data).get b a).scale
            e.properties.damping.stiffnessCoefficient).scale w.damping
        + (e.massMatrix.get b a).scale w.mass := by
    funext b a
    rw [tangentMatrix, Dense.get_ofFn, get_dampingMatrix]
  rw [hTangent]
  simp only [blockForm_add, blockForm_scale]

end Element

/-! ### Signs -/

variable [LinearOrder K] [IsStrictOrderedRing K]

/-- A stable material resists every change of its deformation. -/
theorem LinearElastic.stressDerivative_dot_self_nonneg {p : Lame K} (h : p.Stable) (H : Mat3 K) :
    0 ≤ (stressDerivative p H).dot H := by
  have hSymmetric : H.symmetricPart.dot H = H.symmetricPart.dot H.symmetricPart :=
    (Mat3.dot_symmetricPart H H.transpose_symmetricPart).symm
  have hEnergy := h.quadraticEnergy_nonneg H.symmetricPart
  show 0 ≤ ((H.symmetricPart.scale _).scale _ + Mat3.diagonal _).dot H
  rw [Mat3.add_dot, Mat3.scale_dot, Mat3.scale_dot, Mat3.diagonal_dot, hSymmetric,
    Scalar.ofNat_eq_cast]
  rw [Mat3.trace_symmetricPart, Scalar.half_eq] at hEnergy
  push_cast
  linarith

/-- Stable linear elasticity, with damping that drives no motion. -/
structure Properties.StableElastic (p : Properties K) : Prop where
  law : p.law = .linearElastic
  stable : p.lame.Stable
  massDamping_nonneg : 0 ≤ p.damping.massCoefficient
  stiffnessDamping_nonneg : 0 ≤ p.damping.stiffnessCoefficient

namespace Element

variable {e : Element S K}

/-- Masses of either kind have a form that takes no negative value. -/
theorem blockForm_massOf_nonneg {masses : List (K × Vector K n)}
    (hMass : ∀ q ∈ masses, 0 ≤ q.1) (hBasis : ∀ q ∈ masses, ∀ a, 0 ≤ q.2.get a)
    (lumping : MassLumping) (u : Fin n → Vec3 K) :
    0 ≤ blockForm (fun b a => Mat3.diagonal ((massOf lumping masses).get b a)) u := by
  cases lumping with
  | consistent =>
      rw [massOf, blockForm_consistentMass]
      refine List.sum_nonneg (List.forall_mem_map.mpr fun q hq => ?_)
      exact mul_nonneg (Vec3.dot_self_nonneg _) (hMass q hq)
  | rowSum =>
      rw [massOf, blockForm_lumped]
      refine Finset.sum_nonneg fun b _ => mul_nonneg (Vec3.dot_self_nonneg _) ?_
      rw [Dense.rowSum, ← Fin.sum_univ_def]
      refine Finset.sum_nonneg fun a _ => ?_
      rw [consistentMass, Dense.get_ofFn]
      refine List.sum_nonneg (List.forall_mem_map.mpr fun q hq => ?_)
      exact mul_nonneg (mul_nonneg (hBasis q hq b) (hBasis q hq a)) (hMass q hq)

variable [OrderedScalar K] [Quadrature.Rules K]

/-- The weights of quadrature points are not negative, however the element is oriented, if those of
the rule are positive. -/
theorem Constructed.weight_nonneg (h : e.Constructed)
    (hRule : (S.stiffnessRule : Quadrature.Rule K).Positive) {q : QuadraturePoint S.nodeCount K}
    (hq : q ∈ e.points) : 0 ≤ q.weight := by
  obtain ⟨_, _, _, hMade⟩ := h
  obtain ⟨_, _, X, masses, _, hParts⟩ := ofVertices_eq_ok hMade
  obtain ⟨⟨w, ξ⟩, hNode, hPoint⟩ := hParts.exists_quadraturePoint q hq
  obtain ⟨B, _, rfl⟩ := quadraturePoint_eq_ok hPoint
  rw [Scalar.abs_eq]
  exact mul_nonneg (hRule _ hNode).le (abs_nonneg _)

/-- No field has negative kinetic energy, unless the density or a weight for masses is negative or,
for lumped masses, a point for masses is outside of the shape. -/
theorem Constructed.massForm_nonneg (h : e.Constructed) (hDensity : 0 ≤ e.properties.density)
    (hWeights : (S.massRule : Quadrature.Rule K).Positive)
    (hPoints : ∀ p ∈ (S.massRule : Quadrature.Rule K).nodes, S.Contains p.2)
    (u : Fin S.nodeCount → Vec3 K) : 0 ≤ blockForm e.massMatrix.get u := by
  obtain ⟨_, _, _, hMade⟩ := h
  obtain ⟨_, _, X, masses, _, hParts⟩ := ofVertices_eq_ok hMade
  have hForm : e.massMatrix.get = fun b a =>
      Mat3.diagonal ((massOf e.properties.lumping masses).get b a) := by
    funext b a
    rw [get_massMatrix, hParts.mass_eq]
  rw [hForm]
  apply blockForm_massOf_nonneg
  · intro q hq
    obtain ⟨⟨w, ξ⟩, hNode, hPoint⟩ := hParts.exists_massPoint q hq
    rw [massPoint_eq_ok hPoint, Scalar.abs_eq]
    exact mul_nonneg (mul_nonneg (hWeights _ hNode).le (abs_nonneg _)) hDensity
  · intro q hq a
    obtain ⟨⟨w, ξ⟩, hNode, hPoint⟩ := hParts.exists_massPoint q hq
    rw [massPoint_eq_ok hPoint]
    exact Shape.basis_nonneg (hPoints _ hNode) a

/-- Displacements of a stable linear elastic element take work, wherever its nodes are. -/
theorem Constructed.stiffnessForm_nonneg (h : e.Constructed)
    (hRule : (S.stiffnessRule : Quadrature.Rule K).Positive)
    (hLaw : e.properties.law = .linearElastic) (hStable : e.properties.lame.Stable)
    (x : Vector (Vec3 K) S.nodeCount) (u : Fin S.nodeCount → Vec3 K) :
    0 ≤ blockForm (stiffnessMatrix (e.computeData x)).get u := by
  have hForm : (stiffnessMatrix (e.computeData x)).get = fun b a => (e.points.map fun q =>
      (e.properties.law.contraction e.properties.lame (deformation x q) (q.gradients.get b)
        (q.gradients.get a)).scale q.weight).sum := by
    funext b a
    rw [get_stiffnessMatrix, get_stiffness, integratedContraction]
  rw [hForm, hLaw, blockForm_list_sum]
  refine List.sum_nonneg (List.forall_mem_map.mpr fun q hq => ?_)
  have hOuter := LinearElastic.stressDerivative_outer e.properties.lame (deformation x q)
  rw [blockForm_scale, blockForm_contraction .linearElastic hOuter]
  exact mul_nonneg (LinearElastic.stressDerivative_dot_self_nonneg hStable _)
    (h.weight_nonneg hRule hq)

/-- A stable element with a quadratic energy of some strain stores no negative energy. -/
theorem Constructed.energy_nonneg (h : e.Constructed)
    (hRule : (S.stiffnessRule : Quadrature.Rule K).Positive)
    (hLaw : e.properties.law = .linearElastic ∨ e.properties.law = .stVK)
    (hStable : e.properties.lame.Stable) (x : Vector (Vec3 K) S.nodeCount) :
    0 ≤ (e.computeData x).energy := by
  rw [energy_eq]
  refine List.sum_nonneg (List.forall_mem_map.mpr fun q hq => ?_)
  apply mul_nonneg (h.weight_nonneg hRule hq)
  rcases hLaw with hLaw | hLaw
  · rw [hLaw]
    exact hStable.quadraticEnergy_nonneg _
  · rw [hLaw]
    exact hStable.quadraticEnergy_nonneg _

/-- The weighted tangent matrix of a stable linear elastic element takes no energy out of the
element. -/
theorem Constructed.tangentForm_nonneg (h : e.Constructed) (hDensity : 0 ≤ e.properties.density)
    (hRule : (S.stiffnessRule : Quadrature.Rule K).Positive)
    (hWeights : (S.massRule : Quadrature.Rule K).Positive)
    (hPoints : ∀ p ∈ (S.massRule : Quadrature.Rule K).nodes, S.Contains p.2)
    (hElastic : e.properties.StableElastic) {w : Weights K}
    (hStiffness : 0 ≤ w.stiffness) (hDamping : 0 ≤ w.damping) (hMass : 0 ≤ w.mass)
    (x : Vector (Vec3 K) S.nodeCount) (u : Fin S.nodeCount → Vec3 K) :
    0 ≤ blockForm (e.tangentMatrix (e.computeData x) w).get u := by
  have hMassForm := h.massForm_nonneg hDensity hWeights hPoints u
  have hStiffnessForm := h.stiffnessForm_nonneg hRule hElastic.law hElastic.stable x u
  have hDampingForm := add_nonneg (mul_nonneg hMassForm hElastic.massDamping_nonneg)
    (mul_nonneg hStiffnessForm hElastic.stiffnessDamping_nonneg)
  rw [blockForm_tangentMatrix]
  exact add_nonneg (add_nonneg (mul_nonneg hStiffnessForm hStiffness)
    (mul_nonneg hDampingForm hDamping)) (mul_nonneg hMassForm hMass)

end Element

end Elastodynamics
