import Elastodynamics.Algebra.Dense
import Elastodynamics.Material.Law
/-!
Stress contractions of all pairs of a family of gradients, accumulated into a block matrix. Only
blocks on and above the diagonal are computed and written.
-/
namespace Elastodynamics

variable {α : Type} [Scalar α] {n : Nat}

/-- The multiples by `s` of the contractions of all pairs of gradients, each computed by itself. -/
def Law.plainContractions (law : Law) (p : Lame α) (s : α) (F : Mat3 α)
    (gradients : Vector (Vec3 α) n) : Dense (Mat3 α) n n :=
  .ofFn fun I J =>
    if I ≤ J then (law.contraction p F (gradients.get I) (gradients.get J)).scale s else 0

/-- The same multiples for the Saint Venant-Kirchhoff law, with what depends on the deformation
gradient only, or on one of the two gradients only, computed once. -/
def StVK.sharedContractions (p : Lame α) (s : α) (F : Mat3 α)
    (gradients : Vector (Vec3 α) n) : Dense (Mat3 α) n n :=
  let E := strain F
  let t := E.trace
  let FFt := F * F.transpose
  let Fg := gradients.map F.mulVec
  let Eg := gradients.map E.mulVec
  .ofFn fun I J =>
    if I ≤ J then
      let d := (gradients.get I).dot (gradients.get J)
      let m := (gradients.get I).dot (Eg.get J)
      Mat3.diagonal ((Scalar.ofNat 2 * p.mu * m + p.lambda * t * d) * s)
        + (Mat3.outer (Fg.get J) (Fg.get I)).scale (p.mu * s)
        + (Mat3.outer (Fg.get I) (Fg.get J)).scale (p.lambda * s)
        + FFt.scale (p.mu * d * s)
    else 0

/-- The multiples by `s` of the contractions of all pairs of gradients. -/
def Law.contractions (law : Law) (p : Lame α) (s : α) (F : Mat3 α)
    (gradients : Vector (Vec3 α) n) : Dense (Mat3 α) n n :=
  match law with
  | stVK => StVK.sharedContractions p s F gradients
  | _ => law.plainContractions p s F gradients

/-- Adds the blocks on and above the diagonal; the blocks below it are left alone. -/
def Dense.addUpper (A B : Dense (Mat3 α) n n) : Dense (Mat3 α) n n :=
  .ofFn fun I J => if I ≤ J then A.get I J + B.get I J else A.get I J

/-- Adds contractions, computed by the given function, to a matrix of scalar entries. The matrix
must have three rows and three columns per gradient. -/
def accumulateContractions {r c : Nat} (contractions : Vector (Vec3 α) n → Dense (Mat3 α) n n)
    (gradients : Vector (Vec3 α) n) (A : Dense α r c) : Option (Dense α r c) :=
  if h : r = 3 * n ∧ c = 3 * n then
    some (((A.cast h.1 h.2).toBlocks.addUpper (contractions gradients)).flatten.cast
      h.1.symm h.2.symm)
  else none

end Elastodynamics
