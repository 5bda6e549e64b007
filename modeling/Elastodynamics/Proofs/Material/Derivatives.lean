import Mathlib.Tactic.LinearCombination
import Elastodynamics.Proofs.Calculus.Rules
import Elastodynamics.Proofs.Material.Contractions
/-!
Derivatives of material laws. The stress is the derivative of the energy density, and contractions
with two vectors are the derivative of the stress in directions of rank one. For linear elasticity
and for the Saint Venant-Kirchhoff law this follows from the rules of differentiation alone, in
every sense of a derivative.
-/
namespace Elastodynamics

variable {K : Type} [ExactScalar K]

/-- Energy density, stress and contractions of a law are successive derivatives at a deformation
gradient. -/
structure Law.HasDerivatives (law : Law) (R : DerivativeRule K) (p : Lame K) (F : Mat3 K) :
    Prop where
  energy : ∀ H, R.Holds (fun t => law.energy p (F + H.scale t)) ((law.stress p F).dot H)
  /-- The derivative of the stress is additive in the direction. In the direction `d bᵀ`, applied to
  a vector `a`, it is what the contraction with `a` and `b` makes of `d`. -/
  stress : ∃ D : Mat3 K →+ Mat3 K,
    (∀ H, R.HoldsMat (fun t => law.stress p (F + H.scale t)) (D H)) ∧
    ∀ a b d, (D (Mat3.outer d b)).mulVec a = (law.contraction p F a b).mulVec d

/-- The entries of a contraction are the derivatives of the components of the stress, applied to
`a`, in the directions of rank one that `b` makes with the unit vectors. -/
theorem Law.HasDerivatives.entry {law : Law} {R : DerivativeRule K} {p : Lame K} {F : Mat3 K}
    (h : law.HasDerivatives R p F) (a b : Vec3 K) (i j : Fin 3) :
    R.Holds (fun t => ((law.stress p (F + (Mat3.outer (.unit j) b).scale t)).mulVec a).get i)
      ((law.contraction p F a b).get i j) := by
  obtain ⟨D, hStress, hOuter⟩ := h.stress
  rw [← Mat3.get_mulVec_unit, ← hOuter]
  exact (hStress (Mat3.outer (.unit j) b)).mulVec a i

variable (R : DerivativeRule K) (p : Lame K) (F : Mat3 K)

/-- Two laws have an energy density of this form, each in terms of a strain of its own. -/
theorem holds_quadraticEnergy {R : DerivativeRule K} {E : K → Mat3 K} {E' : Mat3 K}
    (h : R.HoldsMat E E') :
    R.Holds (fun t => p.mu * (E t).dot (E t)
        + Scalar.half * p.lambda * ((E t).trace * (E t).trace))
      (2 * p.mu * (E 0).dot E' + p.lambda * (E 0).trace * E'.trace) := by
  refine R.of_eq (R.add (R.const_mul p.mu (h.dot h))
    (R.const_mul (Scalar.half * p.lambda) (R.mul h.trace h.trace))) ?_
  rw [Mat3.dot_comm E']
  linear_combination p.lambda * (E 0).trace * E'.trace * Scalar.half_add_half (K := K)

/-! ### Linear elasticity -/

namespace LinearElastic

theorem transpose_strain : (strain F).transpose = strain F := by
  rw [strain, Mat3.transpose_sub, Mat3.transpose_symmetricPart]
  rfl

/-- The derivative of the stress in a direction. -/
def stressDerivative : Mat3 K →+ Mat3 K :=
  .mk' (fun H => (H.symmetricPart.scale (Scalar.ofNat 2)).scale p.mu
      + Mat3.diagonal (p.lambda * H.trace)) fun H H' => by
    refine Mat3.ext_get fun i j => ?_
    simp only [Mat3.symmetricPart_add, Mat3.trace_add, Mat3.get_add, Mat3.get_scale,
      Mat3.get_diagonal]
    split <;> ring

variable (H : Mat3 K)

theorem holds_strain : R.HoldsMat (fun t => strain (F + H.scale t)) H.symmetricPart :=
  ((DerivativeRule.HoldsMat.line F H).symmetricPart.sub (.const 1)).of_eq (sub_zero _)

theorem holds_energy :
    R.Holds (fun t => energy p (F + H.scale t)) ((stress p F).dot H) := by
  refine R.of_eq (holds_quadraticEnergy p (holds_strain R F H)) ?_
  rw [Mat3.scale_zero, add_zero, Mat3.dot_symmetricPart _ (transpose_strain F),
    Mat3.trace_symmetricPart, stress, Mat3.add_dot, Mat3.scale_dot, Mat3.scale_dot,
    Mat3.diagonal_dot, Scalar.ofNat_eq_cast]
  push_cast
  ring

theorem holds_stress :
    R.HoldsMat (fun t => stress p (F + H.scale t)) (stressDerivative p H) := by
  have hStrain := holds_strain R F H
  refine (((hStrain.scale_const _).scale_const p.mu).add
    (.diagonal (R.const_mul p.lambda hStrain.trace))).of_eq ?_
  rw [Mat3.trace_symmetricPart]
  rfl

theorem stressDerivative_outer (a b d : Vec3 K) :
    (stressDerivative p (Mat3.outer d b)).mulVec a = (contraction p F a b).mulVec d := by
  show ((((Mat3.outer d b).symmetricPart.scale _).scale _) + Mat3.diagonal _).mulVec a = _
  have hOne : (1 : Mat3 K) = Mat3.diagonal 1 := rfl
  rw [contraction, hOne, Mat3.symmetricPart, Mat3.transpose_outer, Mat3.trace_outer]
  simp only [Mat3.add_mulVec, Mat3.scale_mulVec, Mat3.outer_mulVec, Mat3.diagonal_mulVec]
  rw [Vec3.dot_comm b a, Vec3.dot_comm d a, Vec3.dot_comm d b, Scalar.ofNat_eq_cast]
  refine Vec3.ext_get fun i => ?_
  simp only [Vec3.get_add, Vec3.get_scale]
  push_cast
  linear_combination
    p.mu * (a.dot b * d.get i + a.dot d * b.get i) * Scalar.half_add_half (K := K)

theorem hasDerivatives : Law.linearElastic.HasDerivatives R p F where
  energy := holds_energy R p F
  stress := ⟨stressDerivative p, holds_stress R p F, stressDerivative_outer p F⟩

end LinearElastic

/-! ### Saint Venant-Kirchhoff materials -/

namespace StVK

/-- The derivative of the Green strain in a direction. -/
def strainDerivative (H : Mat3 K) : Mat3 K := (F.transpose * H).symmetricPart

theorem strainDerivative_add (H H' : Mat3 K) :
    strainDerivative F (H + H') = strainDerivative F H + strainDerivative F H' := by
  rw [strainDerivative, mul_add, Mat3.symmetricPart_add]
  rfl

/-- The derivative of the stress in a direction. -/
def stressDerivative : Mat3 K →+ Mat3 K :=
  .mk' (fun H => ((H * strain F + F * strainDerivative F H).scale (Scalar.ofNat 2)).scale p.mu
      + ((H.scale p.lambda).scale (strain F).trace
        + (F.scale p.lambda).scale (strainDerivative F H).trace)) fun H H' => by
    refine Mat3.ext_get fun i j => ?_
    simp only [strainDerivative_add, add_mul, mul_add, Mat3.trace_add, Mat3.get_add,
      Mat3.get_scale]
    ring

variable (H : Mat3 K)

theorem holds_strain : R.HoldsMat (fun t => strain (F + H.scale t)) (strainDerivative F H) := by
  have hLine := DerivativeRule.HoldsMat.line (R := R) F H
  refine (((hLine.transpose.mul hLine).sub (.const 1)).scale_const Scalar.half).of_eq ?_
  rw [sub_zero, Mat3.scale_zero, add_zero, strainDerivative, Mat3.symmetricPart,
    Mat3.transpose_mul, Mat3.transpose_transpose, add_comm]

theorem holds_energy :
    R.Holds (fun t => energy p (F + H.scale t)) ((stress p F).dot H) := by
  refine R.of_eq (holds_quadraticEnergy p (holds_strain R F H)) ?_
  rw [Mat3.scale_zero, add_zero, strainDerivative, Mat3.dot_symmetricPart _ (transpose_strain F),
    Mat3.trace_symmetricPart, Mat3.trace_transpose_mul, stress, Mat3.add_dot, Mat3.scale_dot,
    Mat3.scale_dot, Mat3.scale_dot, Mat3.scale_dot, Mat3.mul_dot, Scalar.ofNat_eq_cast]
  push_cast
  ring

theorem holds_stress :
    R.HoldsMat (fun t => stress p (F + H.scale t)) (stressDerivative p F H) := by
  have hLine := DerivativeRule.HoldsMat.line (R := R) F H
  have hStrain := holds_strain R F H
  refine ((((hLine.mul hStrain).scale_const _).scale_const p.mu).add
    ((hLine.scale_const p.lambda).scale hStrain.trace)).of_eq ?_
  simp only [Mat3.scale_zero, add_zero]
  rfl

theorem stressDerivative_outer (a b d : Vec3 K) :
    (stressDerivative p F (Mat3.outer d b)).mulVec a = (contraction p F a b).mulVec d := by
  show (((_ + _ : Mat3 K).scale _).scale _ + (_ + _)).mulVec a = _
  rw [contraction, strainDerivative, Mat3.mul_outer, Mat3.symmetricPart, Mat3.trace_scale,
    Mat3.trace_add, Mat3.trace_transpose, Mat3.transpose_outer, Mat3.trace_outer]
  simp only [Mat3.add_mulVec, Mat3.scale_mulVec, Mat3.mul_mulVec, Mat3.outer_mulVec,
    Mat3.diagonal_mulVec, Mat3.mulVec_add, Mat3.mulVec_scale]
  have hStrain : a.dot ((strain F).mulVec b) = b.dot ((strain F).mulVec a) := by
    rw [Mat3.dot_mulVec, transpose_strain, Vec3.dot_comm]
  have hMove (u : Vec3 K) : (F.transpose.mulVec d).dot u = (F.mulVec u).dot d := by
    rw [← Mat3.dot_mulVec, Vec3.dot_comm]
  rw [hStrain, hMove, hMove, Vec3.dot_comm b a, Scalar.ofNat_eq_cast]
  refine Vec3.ext_get fun i => ?_
  simp only [Vec3.get_add, Vec3.get_scale]
  push_cast
  linear_combination
    (p.mu * (a.dot b * (F.mulVec (F.transpose.mulVec d)).get i
      + (F.mulVec a).dot d * (F.mulVec b).get i)
      + p.lambda * (F.mulVec b).dot d * (F.mulVec a).get i) * Scalar.half_add_half (K := K)

theorem hasDerivatives : Law.stVK.HasDerivatives R p F where
  energy := holds_energy R p F
  stress := ⟨stressDerivative p F, holds_stress R p F, stressDerivative_outer p F⟩

end StVK

/-- Laws without a logarithm have their derivatives in every sense. -/
theorem Law.hasDerivatives_of_ne {law : Law} (hLaw : law ≠ neoHookean) :
    law.HasDerivatives R p F := by
  cases law with
  | linearElastic => exact LinearElastic.hasDerivatives R p F
  | neoHookean => exact absurd rfl hLaw
  | stVK => exact StVK.hasDerivatives R p F

end Elastodynamics
