import Elastodynamics.Proofs.Algebra.Rotation
import Elastodynamics.Proofs.Material.Contractions
/-!
Objective material laws. The energy density of a rotated deformation gradient is that of the
gradient itself, its stress is the rotated stress, and the contractions of its stress are those of
the stress in the turned frame. Linear elasticity is not objective; the other laws are. The
Neo-Hookean law is defined for a rotated deformation gradient where it is for the gradient itself.
-/
namespace Elastodynamics

variable {K : Type} [ExactScalar K] {R : Mat3 K} (p : Lame K) (F : Mat3 K)

/-- How quantities of a law for a rotated deformation gradient depend on those for the gradient. -/
structure Law.Rotates (law : Law) (p : Lame K) (R F : Mat3 K) : Prop where
  energy : law.energy p (R * F) = law.energy p F
  stress : law.stress p (R * F) = R * law.stress p F
  contraction : ∀ a b, law.contraction p (R * F) a b = Mat3.turned R (law.contraction p F a b)

/-! ### Saint Venant-Kirchhoff materials -/

namespace StVK

/-- The Green strain does not see a rotation. -/
theorem strain_rotate (hR : R.IsRotation) : strain (R * F) = strain F := by
  have hProduct : (R * F).transpose * (R * F) = F.transpose * F := by
    rw [Mat3.transpose_mul, mul_assoc, ← mul_assoc R.transpose, hR.transpose_mul_self, one_mul]
  rw [strain, strain, hProduct]

theorem rotates (hR : R.IsRotation) : Law.stVK.Rotates p R F where
  energy := by
    simp only [Law.energy, energy, strain_rotate F hR]
  stress := by
    simp only [Law.stress, stress, strain_rotate F hR, mul_assoc, mul_add, Mat3.mul_scale]
  contraction := by
    intro a b
    have hProduct : R * F * (R * F).transpose = Mat3.turned R (F * F.transpose) := by
      rw [Mat3.turned, Mat3.transpose_mul]
      simp only [mul_assoc]
    simp only [Law.contraction, contraction, strain_rotate F hR, Mat3.mul_mulVec, hProduct,
      Mat3.turned_add, Mat3.turned_scale, Mat3.turned_outer, hR.turned_diagonal]

end StVK

/-! ### Neo-Hookean materials -/

namespace NeoHookean

/-- A rotation keeps the determinant and is multiplied to the inverse transpose; where there is no
inverse of positive determinant, there is none after the rotation. -/
theorem invert?_rotate (hR : R.IsRotation) :
    invert? (R * F) = (invert? F).map fun result => (result.1, R * result.2) := by
  rw [invert?, invert?, hR.det_mul_left]
  split
  · by_cases hDet : F.det = 0
    · have hSingular {A : Mat3 K} (h : A.det = 0) : A.inverse? = none :=
        if_pos (Scalar.isZero_iff.mpr h)
      rw [hSingular hDet, hSingular ((hR.det_mul_left F).trans hDet)]
      rfl
    · have hRotated : (R * F).det ≠ 0 := (hR.det_mul_left F).symm ▸ hDet
      rw [Mat3.inverse?_of_ne hDet, Mat3.inverse?_of_ne hRotated]
      simp only [Option.map_some, hR.isOrthogonal.transpose_inverse_mul_left hDet]
  · rfl

theorem rotates (hR : R.IsRotation) : Law.neoHookean.Rotates p R F := by
  have hInvert := invert?_rotate F hR
  cases h : invert? F with
  | none =>
      rw [h] at hInvert
      constructor
      case energy => simp only [Law.energy, energy, h, hInvert, Option.map_none]
      case stress =>
        simp only [Law.stress, stress, h, hInvert, Option.map_none, repeated_undefined, mul_zero]
      case contraction =>
        simp only [Law.contraction, contraction, h, hInvert, Option.map_none, repeated_undefined,
          Mat3.turned_zero, implies_true]
  | some result =>
      obtain ⟨logJ, G⟩ := result
      rw [h] at hInvert
      constructor
      case energy =>
        simp only [Law.energy, energy, h, hInvert, Option.map_some, hR.isOrthogonal.mul_dot_mul]
      case stress =>
        simp only [Law.stress, stress, h, hInvert, Option.map_some, mul_add, mul_sub,
          Mat3.mul_scale]
      case contraction =>
        simp only [Law.contraction, contraction, h, hInvert, Option.map_some, Mat3.mul_mulVec,
          Mat3.turned_add, Mat3.turned_scale, Mat3.turned_outer, hR.turned_diagonal, implies_true]

end NeoHookean

/-- All laws but linear elasticity are objective. -/
theorem Law.rotates {law : Law} (hLaw : law ≠ .linearElastic) (hR : R.IsRotation) :
    law.Rotates p R F := by
  cases law with
  | linearElastic => exact absurd rfl hLaw
  | neoHookean => exact NeoHookean.rotates p F hR
  | stVK => exact StVK.rotates p F hR

end Elastodynamics
