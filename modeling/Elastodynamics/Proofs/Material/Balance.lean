import Elastodynamics.Proofs.Algebra.Inverse
import Elastodynamics.Proofs.Material.Contractions
/-!
Balance in material laws. Contractions are additive in each of their two vectors, whatever the
deformation gradient is. For all laws but linear elasticity, the product of the deformation gradient
and the transposed stress is symmetric.
-/
namespace Elastodynamics

variable {K : Type} [ExactScalar K] (p : Lame K) (F : Mat3 K)

/-! ### Sums of contractions -/

section

variable (a a' b : Vec3 K)

theorem LinearElastic.contraction_add_left :
    contraction p F (a + a') b = contraction p F a b + contraction p F a' b := by
  refine Mat3.ext_get fun i j => ?_
  simp only [contraction, Mat3.get_add, Mat3.get_scale, Mat3.get_outer, Vec3.get_add, Vec3.add_dot]
  ring

theorem NeoHookean.contraction_add_left :
    contraction p F (a + a') b = contraction p F a b + contraction p F a' b := by
  rw [contraction, contraction, contraction]
  cases invert? F with
  | none =>
      dsimp only
      rw [repeated_undefined, add_zero]
  | some result =>
      refine Mat3.ext_get fun i j => ?_
      simp only [Mat3.get_add, Mat3.get_scale, Mat3.get_outer, Mat3.get_diagonal, Vec3.get_add,
        Vec3.add_dot, Mat3.mulVec_add]
      split <;> ring

theorem StVK.contraction_add_left :
    contraction p F (a + a') b = contraction p F a b + contraction p F a' b := by
  refine Mat3.ext_get fun i j => ?_
  simp only [contraction, Mat3.get_add, Mat3.get_scale, Mat3.get_outer, Mat3.get_diagonal,
    Vec3.get_add, Vec3.add_dot, Mat3.mulVec_add]
  split <;> ring

end

namespace Law

variable (law : Law)

theorem contraction_add_left (a a' b : Vec3 K) :
    law.contraction p F (a + a') b = law.contraction p F a b + law.contraction p F a' b := by
  cases law with
  | linearElastic => exact LinearElastic.contraction_add_left p F a a' b
  | neoHookean => exact NeoHookean.contraction_add_left p F a a' b
  | stVK => exact StVK.contraction_add_left p F a a' b

/-- The contraction of a sum of vectors is the sum of their contractions. -/
theorem contraction_sum_left {ι : Type} (s : Finset ι) (a : ι → Vec3 K) (b : Vec3 K) :
    law.contraction p F (∑ i ∈ s, a i) b = ∑ i ∈ s, law.contraction p F (a i) b :=
  map_sum (AddMonoidHom.mk' (fun a => law.contraction p F a b)
    fun a a' => law.contraction_add_left p F a a' b) a s

theorem contraction_zero_left (b : Vec3 K) : law.contraction p F 0 b = 0 :=
  law.contraction_sum_left p F (∅ : Finset Empty) nofun b

end Law

/-! ### Symmetric products -/

/-- A symmetric matrix stays symmetric under a change of variables. -/
theorem Mat3.transpose_conjugate {A : Mat3 K} (h : A.transpose = A) (F : Mat3 K) :
    (F * A * F.transpose).transpose = F * A * F.transpose := by
  rw [transpose_mul, transpose_mul, transpose_transpose, h, mul_assoc]

namespace StVK

/-- The second Piola-Kirchhoff stress `2 μ E + λ (tr E) I`. -/
def secondStress : Mat3 K :=
  ((strain F).scale (Scalar.ofNat 2)).scale p.mu + Mat3.diagonal (p.lambda * (strain F).trace)

theorem transpose_secondStress : (secondStress p F).transpose = secondStress p F := by
  rw [secondStress, Mat3.transpose_add, Mat3.transpose_scale, Mat3.transpose_scale,
    transpose_strain, Mat3.transpose_diagonal]

/-- The deformation gradient carries the second stress over to the first. -/
theorem stress_eq_mul : stress p F = F * secondStress p F := by
  rw [stress, secondStress, mul_add, Mat3.mul_scale, Mat3.mul_scale, Mat3.mul_diagonal,
    Mat3.scale_scale F]

theorem transpose_mul_transpose_stress :
    (F * (stress p F).transpose).transpose = F * (stress p F).transpose := by
  have hProduct : F * (stress p F).transpose = F * secondStress p F * F.transpose := by
    rw [stress_eq_mul, Mat3.transpose_mul, transpose_secondStress, mul_assoc]
  rw [hProduct, Mat3.transpose_conjugate (transpose_secondStress p F)]

end StVK

/-- What is given as the inverse transpose of a deformation gradient is one. -/
theorem NeoHookean.mul_transpose_of_invert?_eq_some {F G : Mat3 K} {logJ : K}
    (h : invert? F = some (logJ, G)) : F * G.transpose = 1 := by
  rw [invert?] at h
  split at h
  · obtain ⟨B, hInverse, hB⟩ := Option.map_eq_some_iff.mp h
    cases hB
    exact Mat3.mul_of_inverse?_eq_some hInverse
  · cases h

/-- The stress is a multiple of `F` and one of the inverse transpose of `F`. -/
theorem NeoHookean.transpose_mul_transpose_stress :
    (F * (stress p F).transpose).transpose = F * (stress p F).transpose := by
  rw [stress]
  cases h : invert? F with
  | none =>
      dsimp only
      rw [repeated_undefined, Mat3.transpose_zero, mul_zero, Mat3.transpose_zero]
  | some result =>
      obtain ⟨logJ, G⟩ := result
      have hInverse : F * G.transpose = 1 := mul_transpose_of_invert?_eq_some h
      have hProduct : F * ((F - G).scale p.mu + G.scale (p.lambda * logJ)).transpose =
          (F * F.transpose - 1).scale p.mu + (1 : Mat3 K).scale (p.lambda * logJ) := by
        simp only [Mat3.transpose_add, Mat3.transpose_scale, Mat3.transpose_sub, mul_add, mul_sub,
          Mat3.mul_scale, hInverse]
      dsimp only
      rw [hProduct, Mat3.transpose_add, Mat3.transpose_scale, Mat3.transpose_scale,
        Mat3.transpose_sub, Mat3.transpose_mul, Mat3.transpose_transpose]
      rfl

/-- The Kirchhoff stress `F Pᵀ` is symmetric, unless the law is linear elasticity. Where a law is
undefined there is nothing to show. -/
theorem Law.transpose_mul_transpose_stress {law : Law} (hLaw : law ≠ .linearElastic) :
    (F * (law.stress p F).transpose).transpose = F * (law.stress p F).transpose := by
  cases law with
  | linearElastic => exact absurd rfl hLaw
  | neoHookean => exact NeoHookean.transpose_mul_transpose_stress p F
  | stVK => exact StVK.transpose_mul_transpose_stress p F

end Elastodynamics
