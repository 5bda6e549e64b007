import Elastodynamics.Algebra.Mat3
import Elastodynamics.Material.Parameters
/-!
Hyperelastic material laws. A law gives the energy density of a deformation gradient `F`, the first
Piola-Kirchhoff stress, which is the derivative of the energy density, and the stress contraction
with two vectors `a` and `b`: the matrix with entries `∑ k m, a k * (∂ P i k / ∂ F j m) * b m`.
-/
namespace Elastodynamics

inductive Law where
  /-- Linear elasticity, in terms of the infinitesimal strain. -/
  | linearElastic
  /-- The Neo-Hookean law. It is defined for deformation gradients of positive determinant. -/
  | neoHookean
  /-- The Saint Venant-Kirchhoff law, in terms of the Green strain. -/
  | stVK
deriving Repr, DecidableEq

variable {α : Type} [Scalar α]

/-! ### Linear elasticity -/

namespace LinearElastic

/-- The infinitesimal strain: the symmetric part of `F` less the identity. -/
def strain (F : Mat3 α) : Mat3 α := F.symmetricPart - 1

/-- `μ ε : ε + λ / 2 (tr ε)²`. -/
def energy (p : Lame α) (F : Mat3 α) : α :=
  let ε := strain F
  p.mu * ε.dot ε + Scalar.half * p.lambda * (ε.trace * ε.trace)

/-- `2 μ ε + λ (tr ε) I`. -/
def stress (p : Lame α) (F : Mat3 α) : Mat3 α :=
  let ε := strain F
  (ε.scale (Scalar.ofNat 2)).scale p.mu + Mat3.diagonal (p.lambda * ε.trace)

/-- `μ ((a · b) I + b aᵀ) + λ a bᵀ`. -/
def contraction (p : Lame α) (_F : Mat3 α) (a b : Vec3 α) : Mat3 α :=
  ((1 : Mat3 α).scale (a.dot b) + Mat3.outer b a).scale p.mu + (Mat3.outer a b).scale p.lambda

end LinearElastic

/-! ### Neo-Hookean materials -/

namespace NeoHookean

/-- The logarithm of the determinant and the inverse transpose of a deformation gradient with
positive determinant. -/
def invert? (F : Mat3 α) : Option (α × Mat3 α) :=
  if Scalar.lt 0 F.det then F.inverse?.map fun G => (Scalar.log F.det, G.transpose) else none

/-- `μ / 2 (tr FᵀF - 3) - μ log J + λ / 2 (log J)²` with `J = det F`. -/
def energy (p : Lame α) (F : Mat3 α) : α :=
  match invert? F with
  | some (logJ, _) =>
    Scalar.half * p.mu * (F.dot F - Scalar.ofNat 3) - p.mu * logJ
      + Scalar.half * p.lambda * logJ * logJ
  | none => Scalar.undefined

/-- `μ (F - F⁻ᵀ) + λ (log J) F⁻ᵀ`. -/
def stress (p : Lame α) (F : Mat3 α) : Mat3 α :=
  match invert? F with
  | some (logJ, G) => (F - G).scale p.mu + G.scale (p.lambda * logJ)
  | none => Mat3.repeated Scalar.undefined

/-- `μ (a · b) I + (μ - λ log J) (F⁻ᵀ b) (F⁻ᵀ a)ᵀ + λ (F⁻ᵀ a) (F⁻ᵀ b)ᵀ`. -/
def contraction (p : Lame α) (F : Mat3 α) (a b : Vec3 α) : Mat3 α :=
  match invert? F with
  | some (logJ, G) =>
    let Ga := G.mulVec a
    let Gb := G.mulVec b
    Mat3.diagonal (p.mu * a.dot b) + (Mat3.outer Gb Ga).scale (p.mu - p.lambda * logJ)
      + (Mat3.outer Ga Gb).scale p.lambda
  | none => Mat3.repeated Scalar.undefined

end NeoHookean

/-! ### Saint Venant-Kirchhoff materials -/

namespace StVK

/-- The Green strain `(FᵀF - I) / 2`. -/
def strain (F : Mat3 α) : Mat3 α := (F.transpose * F - 1).scale Scalar.half

/-- `μ E : E + λ / 2 (tr E)²`. -/
def energy (p : Lame α) (F : Mat3 α) : α :=
  let E := strain F
  p.mu * E.dot E + Scalar.half * p.lambda * (E.trace * E.trace)

/-- `F (2 μ E + λ (tr E) I)`. -/
def stress (p : Lame α) (F : Mat3 α) : Mat3 α :=
  let E := strain F
  ((F * E).scale (Scalar.ofNat 2)).scale p.mu + (F.scale p.lambda).scale E.trace

/-- `(2 μ aᵀEb + λ (tr E) (a · b)) I + μ (Fb) (Fa)ᵀ + λ (Fa) (Fb)ᵀ + μ (a · b) FFᵀ`. -/
def contraction (p : Lame α) (F : Mat3 α) (a b : Vec3 α) : Mat3 α :=
  let E := strain F
  let Fa := F.mulVec a
  let Fb := F.mulVec b
  Mat3.diagonal (Scalar.ofNat 2 * p.mu * a.dot (E.mulVec b) + p.lambda * E.trace * a.dot b)
    + (Mat3.outer Fb Fa).scale p.mu + (Mat3.outer Fa Fb).scale p.lambda
    + ((F * F.transpose).scale p.mu).scale (a.dot b)

end StVK

namespace Law

/-- The energy density of a deformation gradient. -/
def energy : Law → Lame α → Mat3 α → α
  | linearElastic => LinearElastic.energy
  | neoHookean => NeoHookean.energy
  | stVK => StVK.energy

/-- The first Piola-Kirchhoff stress. -/
def stress : Law → Lame α → Mat3 α → Mat3 α
  | linearElastic => LinearElastic.stress
  | neoHookean => NeoHookean.stress
  | stVK => StVK.stress

/-- The stress contraction with two vectors. -/
def contraction : Law → Lame α → Mat3 α → Vec3 α → Vec3 α → Mat3 α
  | linearElastic => LinearElastic.contraction
  | neoHookean => NeoHookean.contraction
  | stVK => StVK.contraction

end Law

end Elastodynamics
