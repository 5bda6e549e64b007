import Mathlib.Algebra.Order.Ring.Rat
import Elastodynamics.Proofs.Algebra.Exact
/-!
Exact scalars with an order. The order test is right, and every value counts as finite.
-/
namespace Elastodynamics

/-- That the order test of an ordered field is right and every value is finite. Nothing is said
about the square root, the logarithm and the relative spacing. -/
class OrderedScalar (K : Type) [ExactScalar K] [LinearOrder K] [IsStrictOrderedRing K] : Prop where
  le_iff (x y : K) : Scalar.le x y = true ↔ x ≤ y
  isFinite_eq (x : K) : Scalar.isFinite x = true

instance : OrderedScalar ℚ where
  le_iff _ _ := decide_eq_true_iff
  isFinite_eq _ := rfl

variable {K : Type} [ExactScalar K] [LinearOrder K] [IsStrictOrderedRing K] [OrderedScalar K]

theorem Scalar.abs_eq (x : K) : abs x = |x| := by
  rw [abs]
  split
  · next h => exact (abs_of_nonneg ((OrderedScalar.le_iff _ _).mp h)).symm
  · next h => exact (abs_of_neg (not_le.mp (mt (OrderedScalar.le_iff _ _).mpr h))).symm

theorem Scalar.lt_iff {x y : K} : lt x y = true ↔ x < y := by
  rw [lt, Bool.and_eq_true, Bool.not_eq_true', ← Bool.not_eq_true, OrderedScalar.le_iff,
    OrderedScalar.le_iff, not_le]
  exact ⟨And.right, fun h => ⟨h.le, h⟩⟩

end Elastodynamics
