import Elastodynamics.Proofs.Calculus.Real
import Elastodynamics.Proofs.Material.Derivatives
import Elastodynamics.Proofs.Material.Reference
/-!
Derivatives of the Neo-Hookean law over the real numbers, at deformation gradients of positive
determinant. The logarithm of the determinant and the inverse are differentiable there, and the
determinant stays positive for a while in every direction.
-/
namespace Elastodynamics

variable {K : Type} [ExactScalar K]

/-! ### Determinants and adjugate matrices -/

namespace Mat3

/-- The derivative of the adjugate matrix in a direction: the part of it that is linear in both
matrices. -/
def adjugateDerivative (F H : Mat3 K) : Mat3 K := (F + H).adjugate - F.adjugate - H.adjugate

/-- Where the adjugate matrix and the matrix change, their product changes as the determinant. -/
theorem adjugateDerivative_mul (F H : Mat3 K) :
    adjugateDerivative F H * F + F.adjugate * H = diagonal (F.adjugate * H).trace := by
  simp only [adjugateDerivative, add_def, sub_def, mul_def, adjugate, diagonal, trace]
  ext <;> ring

/-- The adjugate matrix along a line is a polynomial of degree two. -/
theorem adjugate_line (F H : Mat3 K) (t : K) : (F + H.scale t).adjugate =
    F.adjugate + (adjugateDerivative F H).scale t + H.adjugate.scale (t * t) := by
  simp only [adjugateDerivative, add_def, sub_def, scale, adjugate]
  ext <;> ring

/-- The determinant along a line is a polynomial of degree three. -/
theorem det_line (F H : Mat3 K) (t : K) : (F + H.scale t).det =
    F.det + (F.adjugate * H).trace * t + (t * t) * ((H.adjugate * F).trace + H.det * t) := by
  simp only [add_def, mul_def, scale, adjugate, trace, det]
  ring

end Mat3

namespace DerivativeRule.HoldsMat

variable {R : DerivativeRule K} (F H : Mat3 K)

theorem det_line : R.Holds (fun t => (F + H.scale t).det) (F.adjugate * H).trace := by
  simp only [Mat3.det_line]
  refine R.of_eq (R.add (R.affine _ _) (R.mul (R.mul R.id R.id) (R.affine _ _))) ?_
  ring

theorem adjugate_line :
    R.HoldsMat (fun t => (F + H.scale t).adjugate) (Mat3.adjugateDerivative F H) := by
  simp only [Mat3.adjugate_line]
  refine ((line _ _).add ((const H.adjugate).scale (R.mul R.id R.id))).of_eq ?_
  simp

end DerivativeRule.HoldsMat

/-! ### The inverse and the logarithm of the determinant -/

namespace NeoHookean

open DerivativeRule

variable (p : Lame ℝ)

/-- The derivative of the stress in a direction, for the inverse and the logarithm of the
determinant of the deformation gradient. -/
noncomputable def stressDerivative (B : Mat3 ℝ) (logJ : ℝ) : Mat3 ℝ →+ Mat3 ℝ :=
  .mk' (fun H => (H - (-(B * H * B)).transpose).scale p.mu
      + ((-(B * H * B)).transpose.scale (p.lambda * logJ)
        + B.transpose.scale (p.lambda * (B * H).trace))) fun H H' => by
    refine Mat3.ext_get fun i j => ?_
    simp only [mul_add, add_mul, neg_add, Mat3.transpose_add, Mat3.trace_add, Mat3.get_add,
      Mat3.get_sub, Mat3.get_scale]
    ring

theorem stressDerivative_outer (B : Mat3 ℝ) (logJ : ℝ) (a b d : Vec3 ℝ) :
    (stressDerivative p B logJ (Mat3.outer d b)).mulVec a =
      (Mat3.diagonal (p.mu * a.dot b) + (Mat3.outer (B.transpose.mulVec b)
        (B.transpose.mulVec a)).scale (p.mu - p.lambda * logJ) +
        (Mat3.outer (B.transpose.mulVec a) (B.transpose.mulVec b)).scale p.lambda).mulVec d := by
  show ((_ - _ : Mat3 ℝ).scale _ + (_ + _)).mulVec a = _
  rw [Mat3.mul_outer, Mat3.outer_mul, Mat3.trace_outer, Mat3.transpose_neg, sub_neg_eq_add,
    Mat3.transpose_outer]
  simp only [Mat3.add_mulVec, Mat3.scale_mulVec, Mat3.neg_mulVec, Mat3.outer_mulVec,
    Mat3.diagonal_mulVec]
  have hMove (u : Vec3 ℝ) : (B.mulVec d).dot u = (B.transpose.mulVec u).dot d := by
    rw [Vec3.dot_comm, Mat3.dot_mulVec]
  rw [hMove, hMove, Vec3.dot_comm b a]
  refine Vec3.ext_get fun i => ?_
  simp only [Vec3.get_add, Vec3.get_neg, Vec3.get_scale]
  ring

variable {F : Mat3 ℝ} (H : Mat3 ℝ)

theorem hasDerivAt_det :
    HasDerivAt (fun t => (F + H.scale t).det) (F.adjugate * H).trace 0 :=
  HoldsMat.det_line (R := real) F H

theorem det_line_zero : (F + H.scale 0).det = F.det := by
  rw [Mat3.scale_zero, add_zero]

variable (h : 0 < F.det)

include h

/-- In every direction the determinant stays positive for a while. -/
theorem eventually_det_pos : ∀ᶠ t in nhds 0, 0 < (F + H.scale t).det := by
  refine (hasDerivAt_det H).continuousAt.eventually_const_lt ?_
  show 0 < (F + H.scale 0).det
  rwa [det_line_zero]

theorem holds_log :
    real.Holds (fun t => Scalar.log (F + H.scale t).det) (F.inverse * H).trace := by
  refine ((hasDerivAt_det H).log ((det_line_zero H).trans_ne h.ne')).congr_deriv ?_
  rw [det_line_zero, Mat3.inverse, Mat3.scale_mul, Mat3.trace_scale, div_eq_mul_inv]

/-- The derivative of the inverse `F⁻¹` in the direction `H` is `-F⁻¹ H F⁻¹`. -/
theorem holds_inverse :
    real.HoldsMat (fun t => (F + H.scale t).inverse) (-(F.inverse * H * F.inverse)) := by
  -- the product of the adjugate matrix and the matrix itself is differentiated, and divided again
  have hAdjugate : Mat3.adjugateDerivative F H =
      F.inverse.scale (F.adjugate * H).trace - F.adjugate * H * F.inverse := by
    have hProduct := congrArg (fun A => A * F.inverse) (Mat3.adjugateDerivative_mul F H)
    simp only [add_mul, mul_assoc, Mat3.mul_inverse h.ne', mul_one] at hProduct
    rw [eq_sub_iff_add_eq, mul_assoc, hProduct, Mat3.diagonal_mul]
  refine ((HoldsMat.adjugate_line F H).scale
    ((hasDerivAt_det H).inv ((det_line_zero H).trans_ne h.ne'))).of_eq ?_
  rw [det_line_zero, Mat3.scale_zero, add_zero, hAdjugate, Mat3.sub_scale]
  have hScaled : (F.adjugate * H * F.inverse).scale F.det⁻¹ = F.inverse * H * F.inverse := by
    rw [← Mat3.scale_mul, ← Mat3.scale_mul, ← Mat3.inverse]
  have hQuotient : F.adjugate.scale (-(F.adjugate * H).trace / F.det ^ 2) =
      -(F.inverse.scale (F.adjugate * H).trace).scale F.det⁻¹ := by
    rw [Mat3.inverse, Mat3.scale_scale, Mat3.scale_scale, ← Mat3.scale_neg]
    congr 1
    field_simp
  rw [hScaled, hQuotient]
  abel

theorem holds_energy : real.Holds (fun t => energy p (F + H.scale t)) ((stress p F).dot H) := by
  have hLine := HoldsMat.line (R := real) F H
  have hLog := holds_log H h
  have hFormula := real.add (real.sub
    (real.const_mul (Scalar.half * p.mu) (real.sub (hLine.dot hLine) (real.const (Scalar.ofNat 3))))
    (real.const_mul p.mu hLog)) (real.mul (real.const_mul (Scalar.half * p.lambda) hLog) hLog)
  refine real.of_eq (real_congr hFormula ?_) ?_
  · filter_upwards [eventually_det_pos H h] with t ht
    rw [energy, invert?_of_pos ht]
  · have hTrace : (F.inverse * H).trace = F.inverse.transpose.dot H := by
      rw [← Mat3.trace_transpose_mul, Mat3.transpose_transpose]
    rw [stress, invert?_of_pos h, Mat3.scale_zero, add_zero, hTrace, Mat3.dot_comm H F]
    simp only [Mat3.add_dot, Mat3.sub_dot, Mat3.scale_dot, Scalar.half_eq]
    ring

theorem holds_stress : real.HoldsMat (fun t => stress p (F + H.scale t))
    (stressDerivative p F.inverse (Scalar.log F.det) H) := by
  have hLine := HoldsMat.line (R := real) F H
  have hLog := holds_log H h
  have hInverse := (holds_inverse H h).transpose
  have hFormula := ((hLine.sub hInverse).scale_const p.mu).add
    (hInverse.scale (real.const_mul p.lambda hLog))
  refine HoldsMat.of_eq (fun i j => real_congr (hFormula i j) ?_) ?_
  · filter_upwards [eventually_det_pos H h] with t ht
    rw [stress, invert?_of_pos ht]
  · simp only [Mat3.scale_zero, add_zero]
    rfl

theorem hasDerivatives : Law.neoHookean.HasDerivatives real p F where
  energy H := holds_energy p H h
  stress := by
    refine ⟨stressDerivative p F.inverse (Scalar.log F.det), fun H => holds_stress p H h,
      fun a b d => ?_⟩
    rw [Law.contraction, contraction, invert?_of_pos h]
    exact stressDerivative_outer p _ _ a b d

end NeoHookean

/-- Over the real numbers every law has its derivatives where it is defined. -/
theorem Law.hasDerivatives_real {law : Law} {p : Lame ℝ} {F : Mat3 ℝ}
    (hDet : law = neoHookean → 0 < F.det) : law.HasDerivatives .real p F := by
  by_cases hLaw : law = neoHookean
  · subst hLaw
    exact NeoHookean.hasDerivatives p (hDet rfl)
  · exact hasDerivatives_of_ne .real p F hLaw

end Elastodynamics
