import Mathlib.Algebra.Order.BigOperators.Group.Finset
import Mathlib.Algebra.Order.Ring.Abs
import Mathlib.Analysis.SpecialFunctions.Log.Basic
import Elastodynamics.Proofs.Algebra.Ordered
import Elastodynamics.Proofs.Algebra.Rotation
/-!
Similarities: products with an orthogonal matrix, followed by a change of scale. A similarity
multiplies the norm of a matrix by the size of the scale and its determinant by the third power of
it, up to a sign, and the inverse transpose becomes similar with the inverse scale.
-/
namespace Elastodynamics

/-- That the square root of a scalar that is not negative is its root that is not negative. -/
class RootedScalar (K : Type) [ExactScalar K] [LinearOrder K] [IsStrictOrderedRing K] : Prop where
  sqrt_nonneg (x : K) : 0 ≤ x → 0 ≤ Scalar.sqrt x
  sqrt_mul_sqrt (x : K) : 0 ≤ x → Scalar.sqrt x * Scalar.sqrt x = x

/-- The real numbers with the relative spacing of floating point numbers. -/
def SpacedReal : Type := ℝ

namespace SpacedReal

noncomputable instance : LinearOrder SpacedReal := inferInstanceAs (LinearOrder ℝ)

open scoped Classical in
/-- Every value counts as finite. -/
noncomputable instance : ExactScalar SpacedReal where
  toField := inferInstanceAs (Field ℝ)
  sqrt := Real.sqrt
  log := Real.log
  isFinite _ := true
  isZero x := decide (x = (0 : ℝ))
  le x y := decide (x ≤ y)
  epsilon := (((1 + 1) ^ 52)⁻¹ : ℝ)
  one_add_one_ne_zero := show (1 + 1 : ℝ) ≠ 0 by norm_num
  isZero_iff _ := decide_eq_true_iff

instance : IsStrictOrderedRing SpacedReal := inferInstanceAs (IsStrictOrderedRing ℝ)

instance : OrderedScalar SpacedReal where
  le_iff _ _ := decide_eq_true_iff
  isFinite_eq _ := rfl

instance : RootedScalar SpacedReal where
  sqrt_nonneg := fun x _ => Real.sqrt_nonneg x
  sqrt_mul_sqrt := fun _ => Real.mul_self_sqrt

theorem epsilon_eq : (Scalar.epsilon : SpacedReal) = ((1 + 1) ^ 52)⁻¹ := rfl

end SpacedReal

variable {K : Type} [ExactScalar K]

namespace Mat3

/-- A scaled matrix has the inverse of the matrix, scaled back. -/
theorem inverse_scale {A : Mat3 K} (hA : A.det ≠ 0) {s : K} (hs : s ≠ 0) :
    (A.scale s).inverse = A.inverse.scale s⁻¹ := by
  have hInverse : A.scale s * A.inverse.scale s⁻¹ = 1 := by
    rw [mul_scale, scale_mul, scale_scale, mul_inverse hA, mul_inv_cancel₀ hs, scale_one]
  exact (eq_inverse_of_mul_eq_one hInverse).symm

/-- The inverse transpose of a similar matrix is similar, with the inverse scale. -/
theorem IsOrthogonal.transpose_inverse_similar {Q : Mat3 K} (hQ : Q.IsOrthogonal) {A : Mat3 K}
    (hA : A.det ≠ 0) {s : K} (hs : s ≠ 0) :
    ((Q * A).scale s).inverse.transpose = (Q * A.inverse.transpose).scale s⁻¹ := by
  have hDet : (Q * A).det ≠ 0 := by
    rw [det_mul]
    exact mul_ne_zero (left_ne_zero_of_mul_eq_one hQ.det_mul_det) hA
  rw [inverse_scale hDet hs, transpose_scale, hQ.transpose_inverse_mul_left hA]

end Mat3

variable [LinearOrder K] [IsStrictOrderedRing K]

namespace Mat3

variable {Q : Mat3 K} (hQ : Q.IsOrthogonal) (s : K) (J : Mat3 K)

theorem dot_self_nonneg : 0 ≤ J.dot J := by
  rw [dot_eq_sum]
  exact Finset.sum_nonneg fun p _ => Finset.sum_nonneg fun q _ => mul_self_nonneg (J.get p q)

include hQ

theorem IsOrthogonal.abs_det : |Q.det| = 1 := by
  have hSquare : |Q.det| * |Q.det| = 1 * 1 := by
    rw [← abs_mul, hQ.det_mul_det, abs_one, mul_one]
  exact (mul_self_inj (abs_nonneg _) zero_le_one).mp hSquare

/-- Volumes change by the third power of the scale. -/
theorem IsOrthogonal.abs_det_similar : |((Q * J).scale s).det| = |J.det| * |s| ^ 3 := by
  rw [det_scale, det_mul, abs_mul, abs_mul, hQ.abs_det, one_mul, abs_pow]

variable [RootedScalar K]

omit hQ in
theorem norm_nonneg : 0 ≤ J.norm := RootedScalar.sqrt_nonneg _ J.dot_self_nonneg

omit hQ in
theorem norm_mul_norm : J.norm * J.norm = J.dot J :=
  RootedScalar.sqrt_mul_sqrt _ J.dot_self_nonneg

/-- Lengths change by the scale. -/
theorem IsOrthogonal.norm_similar : ((Q * J).scale s).norm = J.norm * |s| := by
  have hSquare : ((Q * J).scale s).norm * ((Q * J).scale s).norm =
      J.norm * |s| * (J.norm * |s|) := by
    rw [norm_mul_norm, scale_dot, dot_comm, scale_dot, hQ.mul_dot_mul, mul_mul_mul_comm,
      norm_mul_norm, abs_mul_abs_self, mul_assoc]
  exact (mul_self_inj (norm_nonneg _) (mul_nonneg J.norm_nonneg (abs_nonneg s))).mp hSquare

end Mat3

end Elastodynamics
