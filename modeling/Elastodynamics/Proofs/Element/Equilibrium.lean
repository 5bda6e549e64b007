import Elastodynamics.Proofs.Algebra.Moment
import Elastodynamics.Proofs.Element.Affine
import Elastodynamics.Proofs.Element.Derivatives
import Elastodynamics.Proofs.Material.Balance
/-!
Sums over the nodes of an element. Gradients add up to zero at every quadrature point, so elastic
forces and the rows and columns of the stiffness matrix do, too, at all positions of the nodes. If
the Kirchhoff stress is symmetric, elastic forces have no moment.
-/
namespace Elastodynamics.Element

variable {K : Type} [ExactScalar K] {S : Shape} {e : Element S K}

/-! ### Forces -/

/-- The sum of the elastic forces on all nodes is zero. -/
theorem Constructed.sum_elasticForce [Quadrature.Rules K] (h : e.Constructed)
    (x : Vector (Vec3 K) S.nodeCount) : ∑ b, e.elasticForce (e.computeData x) b = 0 := by
  simp only [elasticForce_eq]
  rw [sum_list_sum]
  refine List.sum_eq_zero fun v hv => ?_
  obtain ⟨q, hq, rfl⟩ := List.mem_map.mp hv
  rw [← Vec3.sum_scale, ← Mat3.mulVec_sum, h.sum_gradients hq, Mat3.mulVec_zero, Vec3.zero_scale]

/-- The moment that a stress gives rise to at a quadrature point is in what is not symmetric of the
Kirchhoff stress. -/
theorem sum_outer_stress (x : Vector (Vec3 K) S.nodeCount) (q : QuadraturePoint S.nodeCount K)
    (P : Mat3 K) : ∑ a, Mat3.outer (x.get a) (P.mulVec (q.gradients.get a)) =
      deformation x q * P.transpose := by
  rw [deformation_eq, Finset.sum_mul]
  simp only [Mat3.outer_mul, Mat3.transpose_transpose]

/-- The moments of the elastic forces add up to zero, unless the material is linear elastic. -/
theorem sum_cross_elasticForce (hLaw : e.properties.law ≠ .linearElastic)
    (x : Vector (Vec3 K) S.nodeCount) :
    ∑ a, (x.get a).cross (e.elasticForce (e.computeData x) a) = 0 := by
  let kirchhoff (q : QuadraturePoint S.nodeCount K) : Mat3 K :=
    deformation x q * (e.properties.law.stress e.properties.lame (deformation x q)).transpose
  have hMoment : ∑ a, Mat3.outer (x.get a) (e.elasticForce (e.computeData x) a) =
      (e.points.map fun q => (kirchhoff q).scale q.weight).sum := by
    simp only [elasticForce_eq, Mat3.outer_list_sum, List.map_map, sum_list_sum,
      Function.comp_apply, Mat3.outer_scale, ← Mat3.sum_scale, sum_outer_stress]
    rfl
  have hSymmetric : (e.points.map fun q => (kirchhoff q).scale q.weight).sum.transpose =
      (e.points.map fun q => (kirchhoff q).scale q.weight).sum := by
    rw [Mat3.transpose_list_sum, List.map_map]
    refine congrArg List.sum (List.map_congr_left fun q _ => ?_)
    rw [Function.comp_apply, Mat3.transpose_scale,
      Law.transpose_mul_transpose_stress e.properties.lame (deformation x q) hLaw]
  simp only [← Mat3.axial_outer, ← Mat3.axial_sum]
  rw [hMoment, Mat3.axial_of_symmetric hSymmetric]

/-! ### Stiffness -/

/-- The columns of the stiffness matrix add up to zero. -/
theorem Constructed.sum_stiffness [Quadrature.Rules K] (h : e.Constructed)
    (x : Vector (Vec3 K) S.nodeCount) (b : Fin S.nodeCount) :
    ∑ a, (e.computeData x).stiffness.get a b = 0 := by
  simp only [get_stiffness, integratedContraction]
  rw [sum_list_sum]
  refine List.sum_eq_zero fun A hA => ?_
  obtain ⟨q, hq, rfl⟩ := List.mem_map.mp hA
  rw [← Mat3.sum_scale, ← Law.contraction_sum_left, h.sum_gradients hq, Law.contraction_zero_left,
    Mat3.zero_scale]

/-- So do its rows. -/
theorem Constructed.sum_stiffness_row [Quadrature.Rules K] (h : e.Constructed)
    (x : Vector (Vec3 K) S.nodeCount) (a : Fin S.nodeCount) :
    ∑ b, (e.computeData x).stiffness.get a b = 0 := by
  have hColumn := congrArg Mat3.transpose (h.sum_stiffness x a)
  rw [Mat3.transpose_sum, Mat3.transpose_zero] at hColumn
  rw [← hColumn]
  refine Finset.sum_congr rfl fun b _ => ?_
  rw [get_stiffness, get_stiffness, transpose_integratedContraction]

/-- Stiffness-proportional damping has no resulting force, whatever the velocities are. -/
theorem Constructed.sum_stiffnessVelocity [Quadrature.Rules K] (h : e.Constructed)
    (x : Vector (Vec3 K) S.nodeCount) (m : LocalMotion S.nodeCount K) :
    ∑ b, stiffnessVelocity (e.computeData x) m b = 0 := by
  simp only [stiffnessVelocity, ← Fin.sum_univ_def]
  rw [Finset.sum_comm]
  simp only [← Mat3.sum_mulVec, h.sum_stiffness, Mat3.zero_mulVec, Finset.sum_const_zero]

end Elastodynamics.Element
