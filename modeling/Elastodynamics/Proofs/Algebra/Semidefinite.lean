import Mathlib.Algebra.Order.BigOperators.Group.Finset
import Mathlib.Tactic.Linarith
import Mathlib.Tactic.Positivity
import Elastodynamics.Material.Parameters
import Elastodynamics.Proofs.Algebra.Matrices
import Elastodynamics.Proofs.Algebra.Ordered
import Elastodynamics.Proofs.Algebra.Stacked
/-!
Quadratic forms over ordered exact scalars. The energy density of a strain is one of them; it takes
no negative value if neither a change of form nor a change of volume sets energy free.
-/
namespace Elastodynamics

variable {K : Type} [ExactScalar K] [LinearOrder K] [IsStrictOrderedRing K]

/-- A symmetric matrix whose quadratic form takes no negative value. -/
structure Dense.PositiveSemidefinite {n : Nat} (A : Dense K n n) : Prop where
  symmetric : ∀ i j, A.get i j = A.get j i
  nonneg : ∀ y : Array K, y.size = n → 0 ≤ Stacked.dot y (A.mulVec y)

theorem Vec3.dot_self_nonneg (v : Vec3 K) : 0 ≤ v.dot v := by
  rw [dot_eq_sum]
  exact Finset.sum_nonneg fun p _ => mul_self_nonneg (v.get p)

/-- What is left of the squares of all entries without a third of the square of the trace is what
belongs to the change of form. -/
theorem Mat3.trace_mul_trace_le (E : Mat3 K) : E.trace * E.trace ≤ 3 * E.dot E := by
  have hForm : 3 * E.dot E - E.trace * E.trace =
      (E.xx - E.yy) ^ 2 + (E.yy - E.zz) ^ 2 + (E.zz - E.xx) ^ 2
        + 3 * (E.xy ^ 2 + E.xz ^ 2 + E.yx ^ 2 + E.yz ^ 2 + E.zx ^ 2 + E.zy ^ 2) := by
    rw [dot, trace]
    ring
  rw [← sub_nonneg, hForm]
  positivity

/-- That neither the shear modulus nor the bulk modulus `λ + 2 μ / 3` is negative. -/
structure Lame.Stable (p : Lame K) : Prop where
  shear_nonneg : 0 ≤ p.mu
  bulk_nonneg : 0 ≤ 3 * p.lambda + 2 * p.mu

/-- A stable material stores energy under every strain. -/
theorem Lame.Stable.quadraticEnergy_nonneg {p : Lame K} (h : p.Stable) (E : Mat3 K) :
    0 ≤ p.mu * E.dot E + Scalar.half * p.lambda * (E.trace * E.trace) := by
  have hForm : 0 ≤ p.mu * (3 * E.dot E - E.trace * E.trace) :=
    mul_nonneg h.shear_nonneg (sub_nonneg.mpr E.trace_mul_trace_le)
  have hVolume : 0 ≤ (3 * p.lambda + 2 * p.mu) * (E.trace * E.trace) :=
    mul_nonneg h.bulk_nonneg (mul_self_nonneg _)
  rw [Scalar.half_eq]
  linarith

end Elastodynamics
