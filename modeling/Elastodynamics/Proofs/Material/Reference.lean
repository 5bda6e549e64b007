import Elastodynamics.Proofs.Algebra.Ordered
import Elastodynamics.Proofs.Algebra.Inverse
import Elastodynamics.Material.Law
/-!
Material laws in the reference configuration. Where nothing is deformed, no law has stress or
energy. For the Neo-Hookean law this takes an order in which one is positive, and a logarithm that
is zero at one.
-/
namespace Elastodynamics

variable {K : Type} [ExactScalar K]

theorem LinearElastic.strain_one : strain (1 : Mat3 K) = 0 := by
  rw [strain, Mat3.symmetricPart_of_symmetric rfl, sub_self]

theorem StVK.strain_one : strain (1 : Mat3 K) = 0 := by
  have hTranspose : (1 : Mat3 K).transpose = 1 := rfl
  rw [strain, hTranspose, mul_one, sub_self, Mat3.zero_scale]

variable [LinearOrder K] [IsStrictOrderedRing K] [OrderedScalar K] (p : Lame K)

namespace NeoHookean

/-- Deformation gradients of positive determinant have an inverse. -/
theorem invert?_of_pos {F : Mat3 K} (h : 0 < F.det) :
    invert? F = some (Scalar.log F.det, F.inverse.transpose) := by
  rw [invert?, if_pos (Scalar.lt_iff.mpr h), Mat3.inverse?_of_ne h.ne']
  rfl

theorem invert?_one (hLog : Scalar.log (1 : K) = 0) : invert? (1 : Mat3 K) = some (0, 1) := by
  have hPos : 0 < (1 : Mat3 K).det := by
    rw [Mat3.det_one]
    exact one_pos
  have hTranspose : (1 : Mat3 K).transpose = 1 := rfl
  rw [invert?_of_pos hPos, Mat3.inverse, Mat3.det_one, hLog, Mat3.adjugate_one,
    inv_one, Mat3.scale_one, hTranspose]

end NeoHookean

variable {p} (law : Law) (hLog : Scalar.log (1 : K) = 0)

include hLog

/-- No law has stress at the identity. -/
theorem Law.stress_one : law.stress p 1 = 0 := by
  cases law with
  | linearElastic => simp [stress, LinearElastic.stress, LinearElastic.strain_one]
  | neoHookean => simp [stress, NeoHookean.stress, NeoHookean.invert?_one hLog]
  | stVK => simp [stress, StVK.stress, StVK.strain_one]

/-- No law has energy at the identity. -/
theorem Law.energy_one : law.energy p 1 = 0 := by
  have hOne : (1 : Mat3 K).dot 1 = 3 := by
    rw [Mat3.dot_eq_sum]
    norm_num [Mat3.get_one]
  cases law with
  | linearElastic => simp [energy, LinearElastic.energy, LinearElastic.strain_one]
  | neoHookean =>
      simp [energy, NeoHookean.energy, NeoHookean.invert?_one hLog, hOne, Scalar.ofNat_eq_cast]
  | stVK => simp [energy, StVK.energy, StVK.strain_one]

end Elastodynamics
