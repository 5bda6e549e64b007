/-!
Scalars. Every quantity of the library is computed over an arbitrary scalar type: the field
operations, a comparison, a zero test, a finiteness test, a square root and a logarithm. Programs
run at `Float`, where the comparisons fail on NaN; statements about exact arithmetic instantiate the
same definitions at a field.
-/
namespace Elastodynamics

/-- The operations on scalars beyond field arithmetic. Nothing relates them to the arithmetic or to
each other here: what a statement needs of them is one of its hypotheses. -/
class RealOps (α : Type) where
  sqrt : α → α
  log : α → α
  /-- Whether a value counts as a result rather than as a numeric failure. -/
  isFinite : α → Bool
  /-- Whether a coefficient is zero, so that the term it multiplies is left out. -/
  isZero : α → Bool
  le : α → α → Bool
  /-- The relative spacing of scalars at one. -/
  epsilon : α

/-- A scalar type: field arithmetic together with `RealOps`. -/
class Scalar (α : Type) extends Zero α, One α, Add α, Sub α, Neg α, Mul α, Div α, RealOps α

namespace Scalar

export RealOps (sqrt log isFinite isZero le epsilon)

variable {α : Type} [Scalar α]

/-- The scalar `1 + ⋯ + 1` with `n` summands. -/
def ofNat : Nat → α
  | 0 => 0
  | n + 1 => ofNat n + 1

def half : α := 1 / ofNat 2

/-- The strict order test: at most, and not at least. False if either side is not comparable. -/
def lt (x y : α) : Bool := le x y && !le y x

def abs (x : α) : α := if le 0 x then x else -x

/-- The larger of two scalars; the second one if they do not compare. -/
def max (x y : α) : α := if le y x then x else y

/-- The value of an undefined quantity: not a number in floating point arithmetic. -/
def undefined : α := 0 / 0

end Scalar

instance : Scalar Float where
  zero := 0.0
  one := 1.0
  sqrt := Float.sqrt
  log := Float.log
  isFinite := Float.isFinite
  isZero x := x == 0.0
  le x y := x ≤ y
  epsilon := 2.220446049250313e-16

end Elastodynamics
