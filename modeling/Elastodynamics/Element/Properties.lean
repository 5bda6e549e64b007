import Elastodynamics.Material.Law
/-!
Constitutive properties shared by a group of elements.
-/
namespace Elastodynamics

/-- Rayleigh damping: the damping matrix is `α M + β K` for the mass matrix `M` and the stiffness
matrix `K`. -/
structure RayleighDamping (α : Type) where
  /-- The coefficient `α` of the mass matrix. -/
  massCoefficient : α
  /-- The coefficient `β` of the stiffness matrix. -/
  stiffnessCoefficient : α
deriving Repr, DecidableEq

namespace RayleighDamping

variable {α : Type} [Scalar α]

def none : RayleighDamping α := ⟨0, 0⟩

def isNone (d : RayleighDamping α) : Bool :=
  Scalar.isZero d.massCoefficient && Scalar.isZero d.stiffnessCoefficient

end RayleighDamping

/-- How the mass matrix of an element is computed. -/
inductive MassLumping where
  /-- The integrals of the products of basis functions. -/
  | consistent
  /-- The sum of each row of the consistent matrix on the diagonal, and zeros elsewhere. -/
  | rowSum
deriving Repr, DecidableEq

/-- The constitutive properties of an element. -/
structure Properties (α : Type) where
  law : Law
  lame : Lame α
  /-- The mass per volume in the reference configuration. -/
  density : α
  damping : RayleighDamping α
  lumping : MassLumping
deriving Repr

end Elastodynamics
