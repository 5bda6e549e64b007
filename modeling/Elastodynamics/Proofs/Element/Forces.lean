import Elastodynamics.Proofs.Algebra.Vectors
import Elastodynamics.Proofs.Element.Matrices
/-!
The residual of an element over exact scalars. Inertia, damping and gravity are computed from the
masses of pairs of nodes, from row sums and from the stiffness matrix, without a mass or a damping
matrix; together they are what these matrices give for the accelerations and the velocities.
-/
namespace Elastodynamics.Element

variable {K : Type} [ExactScalar K] {S : Shape} {e : Element S K}
  {data : ElementData S.nodeCount K} {m : LocalMotion S.nodeCount K} {g : Vec3 K}

/-- The mass matrix, applied to accelerations and to the velocities that are damped by mass. -/
theorem Constructed.inertialForce_eq [Quadrature.Rules K] (h : e.Constructed)
    (b : Fin S.nodeCount) : e.inertialForce m g b =
      ∑ a, (e.massMatrix.get b a).mulVec (m.accelerations.get a - g) +
      ∑ a, ((e.massMatrix.get b a).scale e.properties.damping.massCoefficient).mulVec
        (m.velocities.get a) := by
  simp only [get_massMatrix, Mat3.diagonal_scale, Mat3.diagonal_mulVec, Vec3.sub_scale,
    Finset.sum_sub_distrib]
  rw [inertialForce, ← Fin.sum_univ_def, Dense.rowSum, ← Fin.sum_univ_def, Vec3.scale_sum,
    sub_add_eq_add_sub, ← Finset.sum_add_distrib]
  congr 1
  refine Finset.sum_congr rfl fun a _ => ?_
  rw [h.get_mass_comm, Vec3.add_scale, Vec3.scale_scale,
    mul_comm e.properties.damping.massCoefficient]

/-- The residual of an element is the sum of its parts, also where damping is left out. -/
theorem get_residual_eq (b : Fin S.nodeCount) : (e.residual data m g).get b =
    e.inertialForce m g b + e.elasticForce data b +
      (stiffnessVelocity data m b).scale e.properties.damping.stiffnessCoefficient := by
  rw [residual, vector_get_ofFn]
  split
  · next hZero => rw [Scalar.isZero_iff.mp hZero, Vec3.scale_zero, add_zero]
  · rfl

/-- The residual of an element is `M (a - g) + D v + f`, node by node. -/
theorem Constructed.get_residual [Quadrature.Rules K] (h : e.Constructed) (b : Fin S.nodeCount) :
    (e.residual data m g).get b =
      ∑ a, (e.massMatrix.get b a).mulVec (m.accelerations.get a - g) +
      ∑ a, ((e.dampingMatrix data).get b a).mulVec (m.velocities.get a) +
      e.elasticForce data b := by
  have hDamping : ∑ a, ((e.dampingMatrix data).get b a).mulVec (m.velocities.get a) =
      ∑ a, ((e.massMatrix.get b a).scale e.properties.damping.massCoefficient).mulVec
        (m.velocities.get a) +
      (stiffnessVelocity data m b).scale e.properties.damping.stiffnessCoefficient := by
    rw [stiffnessVelocity, ← Fin.sum_univ_def, Vec3.sum_scale, ← Finset.sum_add_distrib]
    refine Finset.sum_congr rfl fun a _ => ?_
    rw [get_dampingMatrix, get_stiffnessMatrix, Mat3.add_mulVec,
      Mat3.scale_mulVec (data.stiffness.get b a)]
  rw [get_residual_eq, h.inertialForce_eq, hDamping]
  abel

/-- Without motion and gravity, elastic forces are all that is left. -/
theorem Constructed.get_residual_atRest [Quadrature.Rules K] (h : e.Constructed)
    (b : Fin S.nodeCount) (hVelocities : ∀ a, m.velocities.get a = 0)
    (hAccelerations : ∀ a, m.accelerations.get a = 0) :
    (e.residual data m 0).get b = e.elasticForce data b := by
  rw [h.get_residual]
  simp [hVelocities, hAccelerations]

/-! ### Single matrices -/

variable (e data) (a b : Fin S.nodeCount)

theorem get_tangentMatrix_mass :
    (e.tangentMatrix data ⟨0, 0, 1⟩).get a b = e.massMatrix.get a b := by
  simp [tangentMatrix]

theorem get_tangentMatrix_damping :
    (e.tangentMatrix data ⟨0, 1, 0⟩).get a b = (e.dampingMatrix data).get a b := by
  simp [tangentMatrix]

theorem get_tangentMatrix_stiffness :
    (e.tangentMatrix data ⟨1, 0, 0⟩).get a b = data.stiffness.get a b := by
  simp [tangentMatrix, get_stiffnessMatrix]

end Elastodynamics.Element
