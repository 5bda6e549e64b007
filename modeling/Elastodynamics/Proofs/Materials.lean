import Elastodynamics.Proofs.Material.NeoHookean
import Elastodynamics.Proofs.Material.Polynomials
/-!
Energy densities, stresses and contractions of the material laws as successive derivatives. For
linear elasticity and for the Saint Venant-Kirchhoff law they are coefficients of polynomials, over
every field with a half; for the Neo-Hookean law, which needs a logarithm, they are derivatives over
the real numbers, at every deformation gradient of positive determinant.
-/
namespace Elastodynamics.Law

/-- Material derivatives. Computed with polynomials in `t`, the energy density of a law other than
the Neo-Hookean one at `F + t H` is the polynomial of its values, and its coefficient of degree one
is the stress at `F` times `H`; the components of the stress at `F + t e_j bᵀ`, applied to `a`, are
polynomials too, and their coefficients of degree one are the entries of the contraction with `a`
and `b`. Over the real numbers the same derivatives exist as limits, for the Neo-Hookean law where
the determinant is positive. So exchanging the two vectors of a contraction transposes it. -/
theorem material_derivatives (law : Law) :
    (∀ (K : Type) [ExactScalar K] [RealOps (Polynomial K)] (p : Lame K) (F : Mat3 K),
      law ≠ neoHookean →
      (∀ H, (∀ t, (law.energyAlong p F H).eval t = law.energy p (F + H.scale t)) ∧
        (law.energyAlong p F H).coeff 1 = (law.stress p F).dot H) ∧
      ∀ a b i j,
        (∀ t, (((law.stressAlong p F (Mat3.outer (.unit j) b)).mulVec (a.map .C)).get i).eval t =
          ((law.stress p (F + (Mat3.outer (.unit j) b).scale t)).mulVec a).get i) ∧
        (((law.stressAlong p F (Mat3.outer (.unit j) b)).mulVec (a.map .C)).get i).coeff 1 =
          (law.contraction p F a b).get i j) ∧
    (∀ (p : Lame ℝ) (F : Mat3 ℝ), (law = neoHookean → 0 < F.det) →
      (∀ H, HasDerivAt (fun t => law.energy p (F + H.scale t)) ((law.stress p F).dot H) 0) ∧
      ∀ a b i j, HasDerivAt
        (fun t => ((law.stress p (F + (Mat3.outer (.unit j) b).scale t)).mulVec a).get i)
        ((law.contraction p F a b).get i j) 0) ∧
    ∀ (K : Type) [ExactScalar K] (p : Lame K) (F : Mat3 K) (a b : Vec3 K),
      law.contraction p F a b = (law.contraction p F b a).transpose := by
  refine ⟨fun K _ _ p F hLaw => ⟨fun H => ⟨fun t => ?_, coeff_energyAlong hLaw⟩,
    fun a b i j => ⟨fun t => ?_, coeff_stressAlong hLaw a b i j⟩⟩, fun p F hDet => ?_,
    fun K _ p F a b => (transpose_contraction p F law b a).symm⟩
  · exact eval₂_energyAlong (.id K) t hLaw
  · exact eval₂_stressAlong (.id K) t hLaw a i
  · have hDerivatives := hasDerivatives_real (p := p) hDet
    exact ⟨hDerivatives.energy, hDerivatives.entry⟩

/-! ### A sheared and stretched body -/

/-- Twice the length along the first axis, and a shear along it. -/
def stretch (K : Type) [Field K] : Mat3 K := ⟨1 + 1, 1, 0, 0, 1, 0, 0, 0, 1⟩

/-- A direction that shears in both ways. -/
def shear (K : Type) [Field K] : Mat3 K := ⟨0, 1, 0, 1, 0, 0, 0, 0, 0⟩

/-- Two coefficients of polynomials over the rational numbers, for the Saint Venant-Kirchhoff law,
and a derivative over the real numbers for the Neo-Hookean law, where the determinant is two. -/
theorem material_derivatives_stretched :
    (∃ _ : RealOps (Polynomial ℚ),
      (stVK.energyAlong ⟨3, 5⟩ (stretch ℚ) (shear ℚ)).coeff 1 = 31 ∧
      (((stVK.stressAlong ⟨3, 5⟩ (stretch ℚ) (Mat3.outer (.unit 1) ⟨0, 1, 1⟩)).mulVec
        ((⟨1, 0, 2⟩ : Vec3 ℚ).map .C)).get 0).coeff 1 = 16) ∧
    0 < (stretch ℝ).det ∧
    HasDerivAt (fun t => neoHookean.energy ⟨3, 5⟩ (stretch ℝ + (shear ℝ).scale t))
      ((neoHookean.stress ⟨3, 5⟩ (stretch ℝ)).dot (shear ℝ)) 0 := by
  let ops : RealOps (Polynomial ℚ) := ⟨id, id, fun _ => true, fun _ => false, fun _ _ => true, 0⟩
  have hDet : 0 < (stretch ℝ).det := by norm_num [stretch, Mat3.det]
  obtain ⟨hEnergy, hStress⟩ :=
    (material_derivatives stVK).1 ℚ ⟨3, 5⟩ (stretch ℚ) (by decide)
  refine ⟨⟨ops, (hEnergy (shear ℚ)).2.trans ?_, (hStress ⟨1, 0, 2⟩ ⟨0, 1, 1⟩ 0 1).2.trans ?_⟩,
    hDet, ((material_derivatives neoHookean).2.1 ⟨3, 5⟩ (stretch ℝ) fun _ => hDet).1 (shear ℝ)⟩
  · decide +kernel
  · decide +kernel

end Elastodynamics.Law
