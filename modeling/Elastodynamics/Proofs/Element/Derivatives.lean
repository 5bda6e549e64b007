import Elastodynamics.Proofs.Material.Derivatives
import Elastodynamics.Proofs.Element.Integrals
import Elastodynamics.Proofs.Model.Sums
/-!
Derivatives of the energy and of the elastic forces of an element, when its nodes move on straight
lines. They are those of its material at the quadrature points.
-/
namespace Elastodynamics

variable {K : Type} [ExactScalar K] {S : Shape}

namespace Element

/-- The positions that are reached from `x` in the directions `d` at time `t`. -/
def moved {n : Nat} (x d : Vector (Vec3 K) n) (t : K) : Vector (Vec3 K) n :=
  .ofFn fun a => x.get a + (d.get a).scale t

variable {R : DerivativeRule K} (e : Element S K) {x : Vector (Vec3 K) S.nodeCount}
  (d : Vector (Vec3 K) S.nodeCount)

theorem deformation_eq (q : QuadraturePoint S.nodeCount K) :
    deformation x q = ∑ a, Mat3.outer (x.get a) (q.gradients.get a) := by
  rw [deformation, fieldGradient, Fin.sum_univ_def]

/-- Deformation gradients move on straight lines together with the nodes. -/
theorem deformation_moved (t : K) (q : QuadraturePoint S.nodeCount K) :
    deformation (moved x d t) q = deformation x q + (deformation d q).scale t := by
  simp only [deformation_eq, moved, vector_get_ofFn, Mat3.add_outer, Mat3.scale_outer,
    Mat3.sum_scale, Finset.sum_add_distrib]

/-- The derivative of the energy of an element is the work of its elastic forces. -/
theorem holds_energy (hLaw : ∀ q ∈ e.points,
      e.properties.law.HasDerivatives R e.properties.lame (deformation x q)) :
    R.Holds (fun t => (e.computeData (moved x d t)).energy)
      (∑ b, (e.elasticForce (e.computeData x) b).dot (d.get b)) := by
  simp only [energy_eq, deformation_moved]
  refine R.of_eq (R.list_sum fun q hq => R.const_mul q.weight ((hLaw q hq).energy _)) ?_
  simp only [elasticForce_eq, Vec3.list_sum_dot, List.map_map]
  rw [sum_list_sum]
  refine congrArg List.sum (List.map_congr_left fun q _ => ?_)
  simp only [Function.comp_apply, Vec3.scale_dot, ← Finset.sum_mul]
  rw [mul_comm, deformation_eq (x := d), Mat3.dot_sum]
  simp only [Mat3.dot_outer]

/-- The derivative of the elastic forces is the stiffness matrix, applied to the directions. -/
theorem holds_elasticForce (hLaw : ∀ q ∈ e.points,
      e.properties.law.HasDerivatives R e.properties.lame (deformation x q)) (b : Fin S.nodeCount) :
    R.HoldsVec (fun t => e.elasticForce (e.computeData (moved x d t)) b)
      (∑ c, ((e.computeData x).stiffness.get b c).mulVec (d.get c)) := by
  have hPoint (q : QuadraturePoint S.nodeCount K) (hq : q ∈ e.points) :
      R.HoldsVec (fun t => ((e.properties.law.stress e.properties.lame
          (deformation x q + (deformation d q).scale t)).mulVec (q.gradients.get b)).scale q.weight)
        ((∑ c, (e.properties.law.contraction e.properties.lame (deformation x q)
          (q.gradients.get b) (q.gradients.get c)).mulVec (d.get c)).scale q.weight) := by
    obtain ⟨D, hStress, hOuter⟩ := (hLaw q hq).stress
    have hDirection : (D (deformation d q)).mulVec (q.gradients.get b) =
        ∑ c, (e.properties.law.contraction e.properties.lame (deformation x q)
          (q.gradients.get b) (q.gradients.get c)).mulVec (d.get c) := by
      rw [deformation_eq (x := d), map_sum, Mat3.sum_mulVec]
      exact Finset.sum_congr rfl fun c _ => hOuter _ _ _
    rw [← hDirection]
    exact ((hStress _).mulVec _).scale q.weight
  have hValue : (e.points.map fun q => (∑ c, (e.properties.law.contraction e.properties.lame
        (deformation x q) (q.gradients.get b) (q.gradients.get c)).mulVec (d.get c)).scale
          q.weight).sum =
      ∑ c, ((e.computeData x).stiffness.get b c).mulVec (d.get c) := by
    simp only [get_stiffness, integratedContraction, Mat3.list_sum_mulVec, List.map_map]
    rw [sum_list_sum]
    simp only [Vec3.sum_scale, Function.comp_apply, Mat3.scale_mulVec]
  simp only [elasticForce_eq, deformation_moved]
  rw [← hValue]
  exact .list_sum hPoint

end Element

end Elastodynamics
