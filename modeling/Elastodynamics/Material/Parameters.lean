import Elastodynamics.Scalar
/-!
The two common pairs of parameters of an isotropic elastic material.
-/
namespace Elastodynamics

structure Lame (α : Type) where
  mu : α
  lambda : α
deriving Repr, DecidableEq

structure YoungPoisson (α : Type) where
  young : α
  poisson : α
deriving Repr, DecidableEq

/-- The Lamé parameters of a material given by Young's modulus and Poisson's ratio. -/
def YoungPoisson.toLame {α : Type} [Scalar α] (p : YoungPoisson α) : Lame α :=
  let mu := Scalar.half * p.young / (1 + p.poisson)
  { mu, lambda := Scalar.ofNat 2 * mu * p.poisson / (1 - Scalar.ofNat 2 * p.poisson) }

end Elastodynamics
