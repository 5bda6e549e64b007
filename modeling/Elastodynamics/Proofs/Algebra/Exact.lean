import Mathlib.Algebra.BigOperators.Fin
import Mathlib.Algebra.Field.Rat
import Mathlib.Data.Rat.Cast.CharZero
import Mathlib.Tactic.Abel
import Mathlib.Tactic.Ring
import Elastodynamics.Algebra.Mat3
/-!
Exact scalars. A field with a zero test that is right makes every computation of the library exact;
the square root, the logarithm, the order test, the test for finite values and the relative spacing
stay arbitrary. Over exact scalars the space matrices are an additive group, and transposition and
multiplication by a scalar respect its addition.
-/
namespace Elastodynamics

/-- A field with a half and the operations of a scalar type, whose zero test is right. Nothing is
said about the other operations. -/
class ExactScalar (K : Type) extends Field K, RealOps K where
  one_add_one_ne_zero : (1 + 1 : K) ≠ 0
  isZero_iff (x : K) : RealOps.isZero x = true ↔ x = 0

instance (priority := low) ExactScalar.toScalar {K : Type} [ExactScalar K] : Scalar K where

/-- The rational numbers. The square root is rounded down to a fraction with the denominator of its
argument, and every value counts as finite. There is no logarithm. -/
instance : ExactScalar ℚ where
  sqrt x := mkRat (x.num.toNat * x.den).sqrt x.den
  log _ := 0
  isFinite _ := true
  isZero x := x == 0
  le x y := x ≤ y
  epsilon := 0
  one_add_one_ne_zero := by norm_num
  isZero_iff x := by simp

variable {K : Type} [ExactScalar K]

namespace Scalar

theorem isZero_iff {x : K} : isZero x = true ↔ x = 0 := ExactScalar.isZero_iff x

theorem ofNat_eq_cast (n : Nat) : (ofNat n : K) = n := by
  induction n with
  | zero => simp [ofNat]
  | succ n ih =>
      rw [ofNat, ih]
      push_cast
      rfl

theorem half_eq : (half : K) = 1 / 2 := by
  rw [half, ofNat_eq_cast]
  norm_num

/-- Twice one half is one. -/
theorem half_add_half : (half : K) + half = 1 := by
  have : NeZero (2 : K) := ⟨one_add_one_eq_two (R := K) ▸ ExactScalar.one_add_one_ne_zero⟩
  rw [half_eq]
  exact add_halves 1

end Scalar

namespace Mat3

instance : AddCommMonoid (Mat3 K) where
  add_assoc A B C := by ext <;> exact add_assoc _ _ _
  zero_add A := by ext <;> exact zero_add _
  add_zero A := by ext <;> exact add_zero _
  add_comm A B := by ext <;> exact add_comm _ _
  nsmul := nsmulRec

/-! ### Transposition -/

@[simp] theorem transpose_zero : (0 : Mat3 K).transpose = 0 := rfl

theorem transpose_add (A B : Mat3 K) : (A + B).transpose = A.transpose + B.transpose := rfl

/-- The transposed sum is the sum of the transposed matrices. -/
theorem transpose_sum {ι : Type} (s : Finset ι) (f : ι → Mat3 K) :
    (∑ i ∈ s, f i).transpose = ∑ i ∈ s, (f i).transpose :=
  map_sum (⟨⟨transpose, transpose_zero⟩, transpose_add⟩ : Mat3 K →+ Mat3 K) f s

/-! ### Multiplication by a scalar -/

@[simp] theorem zero_scale (s : K) : (0 : Mat3 K).scale s = 0 := by
  ext <;> exact zero_mul _

@[simp] theorem scale_zero (A : Mat3 K) : A.scale 0 = 0 := by
  ext <;> exact mul_zero _

@[simp] theorem scale_one (A : Mat3 K) : A.scale 1 = A := by
  ext <;> exact mul_one _

theorem add_scale (A B : Mat3 K) (s : K) : (A + B).scale s = A.scale s + B.scale s := by
  ext <;> exact add_mul _ _ _

theorem scale_add (A : Mat3 K) (s t : K) : A.scale (s + t) = A.scale s + A.scale t := by
  ext <;> exact mul_add _ _ _

theorem scale_scale (A : Mat3 K) (s t : K) : (A.scale s).scale t = A.scale (s * t) := by
  ext <;> exact mul_assoc _ _ _

theorem transpose_scale (A : Mat3 K) (s : K) : (A.scale s).transpose = A.transpose.scale s := rfl

/-! ### The symmetric part -/

@[simp] theorem symmetricPart_zero : (0 : Mat3 K).symmetricPart = 0 := by
  rw [symmetricPart, transpose_zero, add_zero, zero_scale]

theorem symmetricPart_add (A B : Mat3 K) :
    (A + B).symmetricPart = A.symmetricPart + B.symmetricPart := by
  rw [symmetricPart, symmetricPart, symmetricPart, transpose_add, ← add_scale]
  congr 1
  abel

theorem transpose_symmetricPart (A : Mat3 K) : A.symmetricPart.transpose = A.symmetricPart := by
  rw [symmetricPart, transpose_scale, transpose_add, transpose_transpose, add_comm]

/-- A symmetric matrix is its own symmetric part. -/
theorem symmetricPart_of_symmetric {A : Mat3 K} (h : A.transpose = A) : A.symmetricPart = A := by
  rw [symmetricPart, h, add_scale, ← scale_add, Scalar.half_add_half, scale_one]

theorem symmetricPart_sum {ι : Type} (s : Finset ι) (f : ι → Mat3 K) :
    (∑ i ∈ s, f i).symmetricPart = ∑ i ∈ s, (f i).symmetricPart :=
  map_sum (⟨⟨symmetricPart, symmetricPart_zero⟩, symmetricPart_add⟩ : Mat3 K →+ Mat3 K) f s

/-! ### The largest entry -/

theorem sub_self (A : Mat3 K) : A - A = 0 := by
  ext <;> exact sub_eq_zero_of_eq rfl

theorem amax_zero : (0 : Mat3 K).amax = 0 := by
  have hAbs : Scalar.abs (0 : K) = 0 := by simp [Scalar.abs]
  have hMax : Scalar.max (0 : K) 0 = 0 := by simp [Scalar.max]
  show (List.replicate 8 (0 : K)).foldl (fun m x => Scalar.max m (Scalar.abs x)) (Scalar.abs 0) = 0
  simp [List.replicate, hAbs, hMax]

/-! ### Sums of an entry on the diagonal -/

theorem addDiagonal_eq (A : Mat3 K) (s : K) : A.addDiagonal s = A + diagonal s := by
  ext <;> simp only [addDiagonal, diagonal] <;> first | rfl | exact (add_zero _).symm

theorem diagonal_scale (s t : K) : (diagonal s).scale t = diagonal (s * t) := by
  ext <;> first | rfl | exact zero_mul _

theorem transpose_diagonal (s : K) : (diagonal s).transpose = diagonal s := rfl

end Mat3

end Elastodynamics
