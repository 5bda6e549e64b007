import Elastodynamics.Algebra.Vec3
/-!
Settings shared by all elements of a model.
-/
namespace Elastodynamics

structure Config (α : Type) where
  /-- The acceleration of gravity, which acts on every element with mass. -/
  gravity : Vec3 α
  /-- Whether values that are not finite are reported as errors. -/
  checkNumerics : Bool
  /-- Whether the data of elements may be evaluated in parallel. Results do not depend on it. -/
  parallelElementData : Bool
deriving Repr, DecidableEq

namespace Config

variable {α : Type} [Scalar α]

/-- No gravity, with checks, and elements evaluated one after the other. -/
def default : Config α where
  gravity := 0
  checkNumerics := true
  parallelElementData := false

def isDefault (c : Config α) : Bool :=
  c.gravity.toList.all Scalar.isZero && c.checkNumerics && !c.parallelElementData

end Config

end Elastodynamics
