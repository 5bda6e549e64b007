/-!
Operations that can end without a value in two ways: by reporting an error of their own, or because
they cannot go on at all.
-/
namespace Elastodynamics

/-- Why an operation gave no value. -/
inductive Failure (ε : Type) where
  /-- The operation rejects its input and says why. -/
  | rejected (error : ε)
  /-- The operation reads outside of an array, or a stated precondition does not hold. -/
  | stuck
deriving Repr, DecidableEq

end Elastodynamics
