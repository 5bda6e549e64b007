import Elastodynamics.Proofs.Assembly
import Elastodynamics.Proofs.Element.Affine
import Elastodynamics.Proofs.Element.Integrals
import Elastodynamics.Proofs.Material.Objectivity
/-!
Elements whose nodes are rotated and translated together. The deformation gradients are rotated, so
an element of an objective material keeps its energy, its elastic forces are rotated, and its
stiffness matrix is the same in the turned frame.
-/
namespace Elastodynamics

variable {K : Type} [ExactScalar K]

namespace Element

variable [Quadrature.Rules K] {S : Shape} {e : Element S K} {R : Mat3 K} {c : Vec3 K}
  {x y : Vector (Vec3 K) S.nodeCount}

section

variable (he : e.Constructed) (hMoved : ∀ a, y.get a = R.mulVec (x.get a) + c)

include he hMoved

theorem Constructed.deformations_rotate :
    (e.computeData y).deformations = (e.computeData x).deformations.map (R * ·) := by
  show e.points.map (deformation y) = (e.points.map (deformation x)).map (R * ·)
  rw [List.map_map]
  apply List.map_congr_left
  intro q hq
  exact he.deformation_affine hMoved hq

variable (hR : R.IsRotation) (hLaw : e.properties.law ≠ .linearElastic)

include hR hLaw

/-- The energy is kept. -/
theorem Constructed.energy_rotate : (e.computeData y).energy = (e.computeData x).energy := by
  rw [energy_eq, energy_eq]
  apply congrArg List.sum
  apply List.map_congr_left
  intro q hq
  rw [he.deformation_affine hMoved hq, (Law.rotates _ (deformation x q) hLaw hR).energy]

/-- Elastic forces are rotated. -/
theorem Constructed.elasticForce_rotate (b : Fin S.nodeCount) :
    e.elasticForce (e.computeData y) b = R.mulVec (e.elasticForce (e.computeData x) b) := by
  rw [elasticForce_eq, elasticForce_eq, Mat3.mulVec_list_sum, List.map_map]
  apply congrArg List.sum
  apply List.map_congr_left
  intro q hq
  rw [he.deformation_affine hMoved hq, (Law.rotates _ (deformation x q) hLaw hR).stress,
    Mat3.mul_mulVec, Function.comp_apply, Mat3.mulVec_scale]

/-- The stiffness matrix is that of the turned frame. -/
theorem Constructed.stiffness_rotate (a b : Fin S.nodeCount) :
    (e.computeData y).stiffness.get a b = Mat3.turned R ((e.computeData x).stiffness.get a b) := by
  rw [get_stiffness, get_stiffness, integratedContraction, integratedContraction,
    Mat3.turned_list_sum, List.map_map]
  apply congrArg List.sum
  apply List.map_congr_left
  intro q hq
  rw [he.deformation_affine hMoved hq, (Law.rotates _ (deformation x q) hLaw hR).contraction,
    Function.comp_apply, Mat3.turned_scale]

end

end Element

/-! ### Global nodes -/

variable {n : Nat} (nodes : Vector Nat n) (R : Mat3 K)

theorem Stacked.spread_mulVec (v : Fin n → Vec3 K) (i : Nat) :
    spread nodes (fun a => R.mulVec (v a)) i = R.mulVec (spread nodes v i) := by
  rw [spread, spread, Mat3.mulVec_sum]
  apply Finset.sum_congr rfl
  intro a _
  split
  · rfl
  · exact (Mat3.mulVec_zero R).symm

theorem Dense.scattered_turned {L L' : Dense (Mat3 K) n n}
    (h : ∀ a b, L'.get a b = Mat3.turned R (L.get a b)) (i j : Nat) :
    L'.scattered nodes i j = Mat3.turned R (L.scattered nodes i j) := by
  simp only [scattered, h, Mat3.turned_sum, Mat3.turned_ite]

end Elastodynamics
