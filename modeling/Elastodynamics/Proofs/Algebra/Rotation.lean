import Elastodynamics.Proofs.Algebra.Inverse
/-!
Rotations and changes of frame. The inverse of a rotation is its transpose. Seen in a frame that is
turned by `R`, a matrix `A` is `R A Rᵀ`; sums, multiples and products of a column and a row become
those of what their parts become.
-/
namespace Elastodynamics.Mat3

variable {K : Type} [ExactScalar K]

/-! ### Matrices in a turned frame -/

/-- The matrix `A` as it is seen in a frame that is turned by `R`. -/
def turned (R A : Mat3 K) : Mat3 K := R * A * R.transpose

section

variable (R A B : Mat3 K)

@[simp] theorem turned_zero : turned R 0 = 0 := by
  rw [turned, mul_zero, zero_mul]

theorem turned_add : turned R (A + B) = turned R A + turned R B := by
  rw [turned, turned, turned, mul_add, add_mul]

theorem turned_scale (s : K) : turned R (A.scale s) = (turned R A).scale s := by
  rw [turned, turned, mul_scale, scale_mul]

theorem turned_outer (u v : Vec3 K) :
    turned R (outer u v) = outer (R.mulVec u) (R.mulVec v) := by
  rw [turned, mul_outer, outer_mul, transpose_transpose]

theorem turned_sum {ι : Type} (s : Finset ι) (f : ι → Mat3 K) :
    turned R (∑ i ∈ s, f i) = ∑ i ∈ s, turned R (f i) :=
  map_sum (⟨⟨turned R, turned_zero R⟩, turned_add R⟩ : Mat3 K →+ Mat3 K) f s

theorem turned_list_sum (l : List (Mat3 K)) : turned R l.sum = (l.map (turned R)).sum :=
  map_list_sum (⟨⟨turned R, turned_zero R⟩, turned_add R⟩ : Mat3 K →+ Mat3 K) l

theorem turned_ite (c : Prop) [Decidable c] :
    turned R (if c then A else 0) = if c then turned R A else 0 := by
  split
  · rfl
  · exact turned_zero R

end

/-! ### Orthogonal matrices -/

/-- A matrix whose inverse is its transpose: a rotation or a reflection. -/
def IsOrthogonal (Q : Mat3 K) : Prop := Q.transpose * Q = 1

theorem det_transpose (A : Mat3 K) : A.transpose.det = A.det := by
  simp only [det, transpose]
  ring

namespace IsOrthogonal

variable {Q : Mat3 K} (hQ : Q.IsOrthogonal)

include hQ

theorem det_mul_det : Q.det * Q.det = 1 := by
  calc Q.det * Q.det
      = (Q.transpose * Q).det := by rw [det_mul, det_transpose]
    _ = 1 := by rw [hQ, det_one]

theorem mul_transpose_self : Q * Q.transpose = 1 := by
  have hDet : Q.transpose.det ≠ 0 := by
    rw [det_transpose]
    exact left_ne_zero_of_mul_eq_one hQ.det_mul_det
  have hInverse : Q = Q.transpose.inverse := eq_inverse_of_mul_eq_one hQ
  calc Q * Q.transpose
      = Q.transpose.inverse * Q.transpose := congrArg (· * Q.transpose) hInverse
    _ = 1 := inverse_mul hDet

/-- An orthogonal matrix that is multiplied to a matrix is multiplied to its inverse transpose as
well. -/
theorem transpose_inverse_mul_left {A : Mat3 K} (hA : A.det ≠ 0) :
    (Q * A).inverse.transpose = Q * A.inverse.transpose := by
  have hInverse : Q * A * (A.inverse * Q.transpose) = 1 := by
    calc Q * A * (A.inverse * Q.transpose)
        = Q * (A * A.inverse) * Q.transpose := by simp only [mul_assoc]
      _ = 1 := by rw [mul_inverse hA, mul_one, hQ.mul_transpose_self]
  rw [← eq_inverse_of_mul_eq_one hInverse, transpose_mul, transpose_transpose]

/-- Products of corresponding entries are kept. -/
theorem mul_dot_mul (A B : Mat3 K) : (Q * A).dot (Q * B) = A.dot B := by
  rw [mul_dot, ← mul_assoc, hQ, one_mul]

end IsOrthogonal

/-! ### Rotations -/

/-- A proper rotation: an orthogonal matrix of determinant one. -/
structure IsRotation (R : Mat3 K) : Prop where
  transpose_mul_self : R.transpose * R = 1
  det_eq_one : R.det = 1

namespace IsRotation

variable {R : Mat3 K} (hR : R.IsRotation)

include hR

theorem isOrthogonal : R.IsOrthogonal := hR.transpose_mul_self

theorem mul_transpose_self : R * R.transpose = 1 := hR.isOrthogonal.mul_transpose_self

theorem det_mul_left (A : Mat3 K) : (R * A).det = A.det := by
  rw [det_mul, hR.det_eq_one, one_mul]

/-- Multiples of the identity are the same in every frame. -/
theorem turned_diagonal (s : K) : turned R (diagonal s) = diagonal s := by
  have hOne : (1 : Mat3 K).scale s = diagonal s := by
    rw [← diagonal_mul, mul_one]
  rw [← hOne, turned_scale, turned, mul_one, hR.mul_transpose_self]

end IsRotation

end Elastodynamics.Mat3
