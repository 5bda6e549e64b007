import Elastodynamics.Proofs.Algebra.Matrices
import Elastodynamics.Material.Contractions
/-!
Contractions of all pairs of gradients. Exchanging two vectors transposes their contraction, so that
the blocks on and above the diagonal tell the others, and computing what several contractions share
only once changes none of them.
-/
namespace Elastodynamics

variable {K : Type} [ExactScalar K] {n : Nat} (p : Lame K) (F : Mat3 K)

/-- An undefined matrix over exact scalars is zero, as every quotient by zero is. -/
theorem NeoHookean.repeated_undefined : (Mat3.repeated Scalar.undefined : Mat3 K) = 0 := by
  have hZero : (Scalar.undefined : K) = 0 := div_zero 0
  rw [hZero]
  rfl

/-! ### Symmetry -/

theorem LinearElastic.transpose_contraction (a b : Vec3 K) :
    (contraction p F a b).transpose = contraction p F b a := by
  rw [contraction, contraction, Mat3.transpose_add, Mat3.transpose_scale, Mat3.transpose_scale,
    Mat3.transpose_add, Mat3.transpose_outer, Mat3.transpose_outer, Vec3.dot_comm]
  rfl

theorem NeoHookean.transpose_contraction (a b : Vec3 K) :
    (contraction p F a b).transpose = contraction p F b a := by
  rw [contraction, contraction]
  cases invert? F with
  | none => rfl
  | some result =>
      simp only [Mat3.transpose_add, Mat3.transpose_scale, Mat3.transpose_outer,
        Mat3.transpose_diagonal, Vec3.dot_comm]

/-- The Green strain is symmetric. -/
theorem StVK.transpose_strain : (strain F).transpose = strain F := by
  rw [strain, Mat3.transpose_scale, Mat3.transpose_sub, Mat3.transpose_mul,
    Mat3.transpose_transpose]
  rfl

theorem StVK.transpose_contraction (a b : Vec3 K) :
    (contraction p F a b).transpose = contraction p F b a := by
  have hStrain : b.dot ((strain F).mulVec a) = a.dot ((strain F).mulVec b) := by
    rw [Mat3.dot_mulVec, transpose_strain, Vec3.dot_comm]
  rw [contraction, contraction, hStrain, Vec3.dot_comm b a]
  simp only [Mat3.transpose_add, Mat3.transpose_scale, Mat3.transpose_outer,
    Mat3.transpose_diagonal, Mat3.transpose_mul, Mat3.transpose_transpose]

/-- Exchanging the two vectors transposes their contraction. -/
theorem Law.transpose_contraction (law : Law) (a b : Vec3 K) :
    (law.contraction p F a b).transpose = law.contraction p F b a := by
  cases law with
  | linearElastic => exact LinearElastic.transpose_contraction p F a b
  | neoHookean => exact NeoHookean.transpose_contraction p F a b
  | stVK => exact StVK.transpose_contraction p F a b

/-! ### Shared computations -/

theorem StVK.sharedContractions_eq (s : K) (gradients : Vector (Vec3 K) n) :
    sharedContractions p s F gradients = Law.stVK.plainContractions p s F gradients := by
  refine Dense.ext fun I J => ?_
  rw [sharedContractions, Law.plainContractions, Dense.get_ofFn, Dense.get_ofFn]
  split
  · rw [Law.contraction, contraction, vector_get_map]
    simp only [Mat3.add_scale, Mat3.diagonal_scale, Mat3.scale_scale, vector_get_map]
  · rfl

/-- However they are computed, contractions are those of the pairs of gradients. -/
theorem Law.contractions_eq (law : Law) (s : K) (gradients : Vector (Vec3 K) n) :
    law.contractions p s F gradients = law.plainContractions p s F gradients := by
  cases law with
  | linearElastic | neoHookean => rfl
  | stVK => exact StVK.sharedContractions_eq p F s gradients

end Elastodynamics
