import Elastodynamics.Proofs.Material.Derivatives
import Elastodynamics.Proofs.Material.Reference
/-!
Linearization of material laws in the reference configuration. Where nothing is deformed, the
contractions of all laws are those of linear elasticity, which are the same everywhere. They do not
see infinitesimal rotations.
-/
namespace Elastodynamics

variable {K : Type} [ExactScalar K]

/-! ### Infinitesimal rotations -/

namespace Mat3

variable {W : Mat3 K} (h : W.transpose = -W)

include h

theorem symmetricPart_of_skew : W.symmetricPart = 0 := by
  rw [symmetricPart, h, add_neg_cancel, zero_scale]

theorem trace_of_skew : W.trace = 0 := by
  rw [← trace_symmetricPart, symmetricPart_of_skew h, trace_zero]

end Mat3

namespace LinearElastic

variable (p : Lame K)

/-- Infinitesimal rotations do not change the stress. -/
theorem stressDerivative_of_skew {W : Mat3 K} (h : W.transpose = -W) :
    stressDerivative p W = 0 := by
  show (W.symmetricPart.scale _).scale _ + Mat3.diagonal _ = 0
  rw [Mat3.symmetricPart_of_skew h, Mat3.trace_of_skew h, mul_zero, Mat3.diagonal_zero,
    Mat3.zero_scale, Mat3.zero_scale, add_zero]

/-- What contractions make of the values of a field at the nodes is the change of stress that the
gradient of this field causes. -/
theorem sum_contraction_mulVec {n : Nat} (F : Mat3 K) (a : Vec3 K) (u g : Fin n → Vec3 K) :
    ∑ b, (contraction p F a (g b)).mulVec (u b) =
      (stressDerivative p (∑ b, Mat3.outer (u b) (g b))).mulVec a := by
  rw [map_sum, Mat3.sum_mulVec]
  exact Finset.sum_congr rfl fun b _ => (stressDerivative_outer p F a (g b) (u b)).symm

end LinearElastic

/-! ### The reference configuration -/

variable [LinearOrder K] [IsStrictOrderedRing K] [OrderedScalar K] (p : Lame K)

/-- At the identity, all laws have the contractions of linear elasticity. -/
theorem Law.contraction_one (law : Law) (hLog : Scalar.log (1 : K) = 0) (a b : Vec3 K) :
    law.contraction p 1 a b = LinearElastic.contraction p 1 a b := by
  refine Mat3.ext_get fun i j => ?_
  cases law with
  | linearElastic => rfl
  | neoHookean =>
      rw [contraction, NeoHookean.contraction, NeoHookean.invert?_one hLog]
      simp only [LinearElastic.contraction, Mat3.one_mulVec, Mat3.get_add, Mat3.get_scale,
        Mat3.get_diagonal, Mat3.get_one, mul_zero, sub_zero]
      split <;> ring
  | stVK =>
      have hTranspose : (1 : Mat3 K).transpose = 1 := rfl
      simp only [contraction, StVK.contraction, StVK.strain_one, LinearElastic.contraction,
        hTranspose, mul_one, Mat3.one_mulVec, Mat3.zero_mulVec, Vec3.dot_zero, Mat3.trace_zero,
        Mat3.get_add, Mat3.get_scale, Mat3.get_diagonal, Mat3.get_one]
      split <;> ring

end Elastodynamics
