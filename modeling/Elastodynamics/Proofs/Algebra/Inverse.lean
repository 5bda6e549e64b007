import Elastodynamics.Proofs.Algebra.Matrices
/-!
Inverse matrices by Cramer's rule, over exact scalars.
-/
namespace Elastodynamics.Mat3

variable {K : Type} [ExactScalar K] (A B : Mat3 K) (s : K)

/-! ### Entries of sums and products -/

theorem add_def : A + B =
    ⟨A.xx + B.xx, A.xy + B.xy, A.xz + B.xz, A.yx + B.yx, A.yy + B.yy, A.yz + B.yz,
     A.zx + B.zx, A.zy + B.zy, A.zz + B.zz⟩ := rfl

theorem sub_def : A - B =
    ⟨A.xx - B.xx, A.xy - B.xy, A.xz - B.xz, A.yx - B.yx, A.yy - B.yy, A.yz - B.yz,
     A.zx - B.zx, A.zy - B.zy, A.zz - B.zz⟩ := rfl

theorem mul_def : A * B =
    ⟨A.xx * B.xx + A.xy * B.yx + A.xz * B.zx, A.xx * B.xy + A.xy * B.yy + A.xz * B.zy,
     A.xx * B.xz + A.xy * B.yz + A.xz * B.zz, A.yx * B.xx + A.yy * B.yx + A.yz * B.zx,
     A.yx * B.xy + A.yy * B.yy + A.yz * B.zy, A.yx * B.xz + A.yy * B.yz + A.yz * B.zz,
     A.zx * B.xx + A.zy * B.yx + A.zz * B.zx, A.zx * B.xy + A.zy * B.yy + A.zz * B.zy,
     A.zx * B.xz + A.zy * B.yz + A.zz * B.zz⟩ := rfl

/-! ### Adjugate and inverse matrices -/

theorem mul_adjugate : A * A.adjugate = diagonal A.det := by
  rw [mul_def]
  ext <;> simp only [adjugate, diagonal, det] <;> ring

theorem adjugate_mul : A.adjugate * A = diagonal A.det := by
  rw [mul_def]
  ext <;> simp only [adjugate, diagonal, det] <;> ring

theorem det_mul : (A * B).det = A.det * B.det := by
  rw [mul_def]
  simp only [det]
  ring

theorem det_scale : (A.scale s).det = A.det * s ^ 3 := by
  simp only [det, scale]
  ring

theorem scale_mul : A.scale s * B = (A * B).scale s := by
  refine ext_get fun p q => ?_
  simp only [get_mul, get_scale, Finset.sum_mul, mul_right_comm]

theorem mul_scale : A * B.scale s = (A * B).scale s := by
  refine ext_get fun p q => ?_
  simp only [get_mul, get_scale, Finset.sum_mul, mul_assoc]

theorem one_def : (1 : Mat3 K) = ⟨1, 0, 0, 0, 1, 0, 0, 0, 1⟩ := rfl

@[simp] theorem det_one : (1 : Mat3 K).det = 1 := by
  simp [one_def, det]

@[simp] theorem adjugate_one : (1 : Mat3 K).adjugate = 1 := by
  simp [one_def, adjugate]

theorem divide_eq_scale : A.divide s = A.scale s⁻¹ := by
  ext <;> exact div_eq_mul_inv _ _

/-- The inverse of a matrix whose determinant is not zero. -/
def inverse : Mat3 K := A.adjugate.scale A.det⁻¹

variable {A B}

theorem mul_inverse (h : A.det ≠ 0) : A * A.inverse = 1 := by
  rw [inverse, mul_scale, mul_adjugate, diagonal_scale, mul_inv_cancel₀ h]
  rfl

theorem inverse_mul (h : A.det ≠ 0) : A.inverse * A = 1 := by
  rw [inverse, scale_mul, adjugate_mul, diagonal_scale, mul_inv_cancel₀ h]
  rfl

/-- What is multiplied to the identity from the right is the inverse. -/
theorem eq_inverse_of_mul_eq_one (h : A * B = 1) : B = A.inverse := by
  have hDets : A.det * B.det = 1 := by rw [← det_mul, h, det_one]
  have hDet : A.det ≠ 0 := left_ne_zero_of_mul_eq_one hDets
  exact (left_inv_eq_right_inv (inverse_mul hDet) h).symm

theorem inverse?_of_ne (h : A.det ≠ 0) : A.inverse? = some A.inverse := by
  rw [inverse?, if_neg fun hZero => h (Scalar.isZero_iff.mp hZero), divide_eq_scale, inverse]

/-- What is given as an inverse is one. -/
theorem mul_of_inverse?_eq_some (h : A.inverse? = some B) : A * B = 1 := by
  by_cases hDet : A.det = 0
  · rw [inverse?, if_pos (Scalar.isZero_iff.mpr hDet)] at h
    cases h
  · rw [inverse?_of_ne hDet] at h
    cases h
    exact mul_inverse hDet

end Elastodynamics.Mat3
