import Elastodynamics.Element.Nodes
import Elastodynamics.Sparse.Error
/-!
The errors of models, builders and states.
-/
namespace Elastodynamics

/-- What an operation on a model, a builder or a state rejects. -/
inductive ModelError where
  /-- The state was not made by the model, or the model has been rebuilt since. -/
  | incompatibleState (operation : String)
  | sizeMismatch (what : String) (expected actual : Nat)
  /-- The tangent matrix does not store a block that the model needs. -/
  | unallocatedBlock (row col : Nat)
  | builderConsumed
  /-- An element was rejected by a builder. -/
  | invalidElement (elementIndex : Nat) (reason : ElementError)
  /-- An element produced a value that is not finite. -/
  | numericFailure (elementIndex : Nat) (quantity : String)
  /-- Any other error of a block-sparse matrix. -/
  | sparse (inner : Sparse.Error)
deriving Repr, DecidableEq

namespace ModelError

def message : ModelError → String
  | incompatibleState operation =>
    s!"State is incompatible with the model in {operation}. "
      ++ "Use a state created by the model after its last build."
  | sizeMismatch what expected actual =>
    s!"Size mismatch for {what}: expected {expected}, got {actual}."
  | unallocatedBlock row col =>
    s!"Block ({row}, {col}) is required by the model but not allocated in the matrix."
  | builderConsumed => "The builder has already been built."
  | invalidElement elementIndex reason =>
    s!"Element {elementIndex} is invalid: " ++ reason.message ++ "."
  | numericFailure elementIndex quantity =>
    s!"Element {elementIndex} produced a non-finite {quantity}."
  | sparse inner => "Block-sparse matrix error: " ++ inner.message

/-- The text of the error that caused this one, if another error did. -/
def cause? : ModelError → Option String
  | invalidElement _ reason => some reason.message
  | sparse inner => some inner.message
  | _ => none

/-- The error of a model for an error of one of its matrices. -/
def ofSparse : Sparse.Error → ModelError
  | .unallocatedBlock row col => unallocatedBlock row col
  | other => sparse other

/-- The error with element numbers counted from an element of a larger model. -/
def shiftElement (offset : Nat) : ModelError → ModelError
  | numericFailure elementIndex quantity => numericFailure (offset + elementIndex) quantity
  | other => other

end ModelError

end Elastodynamics
