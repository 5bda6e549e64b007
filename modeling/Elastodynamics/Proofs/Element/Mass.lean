import Elastodynamics.Proofs.Element.Affine
import Elastodynamics.Proofs.Element.Forces
import Elastodynamics.Proofs.Quadrature
/-!
Masses of an element. Basis functions add up to one at every point, so the entries of a consistent
mass matrix add up to the masses of the points that it is made of. Lumping keeps the sums of the
rows, and gravity acts on these sums only.
-/
namespace Elastodynamics

variable {K : Type} [ExactScalar K]

namespace Shape

/-! ### Partition of unity -/

/-- The two basis functions of the line add up to one. -/
theorem hat_add_hat (x : K) : hat 1 x + hat (-1) x = 1 := by
  calc hat 1 x + hat (-1) x
      = 1 / Scalar.ofNat 2 + 1 / Scalar.ofNat 2 := by
        rw [hat, hat]
        ring
    _ = 1 := Scalar.half_add_half

/-- Basis functions add up to one at every point. -/
theorem sum_basis (S : Shape) (ξ : Vec3 K) : ∑ a, (S.basis ξ).get a = 1 := by
  cases S with
  | tet4 =>
      let half : K := Scalar.half
      calc ∑ a, (basis tet4 ξ).get a
          = (-half * ξ.x - half * ξ.y - half * ξ.z - half) + (half * ξ.x + half)
              + (half * ξ.y + half) + (half * ξ.z + half) := Fin.sum_univ_four _
        _ = half + half := by ring
        _ = 1 := Scalar.half_add_half
  | hex8 =>
      let value (s : Vec3 K) : K := hat s.x ξ.x * hat s.y ξ.y * hat s.z ξ.z
      calc ∑ a, (basis hex8 ξ).get a
          = ∑ a, value (cubeSigns.get a) :=
            Finset.sum_congr rfl fun a _ => vector_get_map value cubeSigns a
        _ = (hat 1 ξ.x + hat (-1) ξ.x) * (hat 1 ξ.y + hat (-1) ξ.y)
              * (hat 1 ξ.z + hat (-1) ξ.z) := by
            rw [sum_cubeSigns]
            ring
        _ = 1 := by rw [hat_add_hat, hat_add_hat, hat_add_hat, one_mul, one_mul]

end Shape

/-! ### Sums of masses -/

namespace Dense

variable {n : Nat} (A : Dense K n n)

theorem rowSum_eq_sum (i : Fin n) : A.rowSum i = ∑ j, A.get i j := by
  rw [rowSum, ← Fin.sum_univ_def]

/-- Lumping a matrix keeps the sums of its rows. -/
theorem rowSum_lumped (i : Fin n) : A.lumped.rowSum i = A.rowSum i := by
  rw [rowSum_eq_sum]
  simp only [lumped, get_ofFn, Finset.sum_ite_eq, Finset.mem_univ, if_true]

theorem get_lumped_of_ne {i j : Fin n} (h : i ≠ j) : A.lumped.get i j = 0 := by
  rw [lumped, get_ofFn, if_neg h]

end Dense

namespace Element

variable {n : Nat}

/-- The sum of all entries of a mass matrix, lumped or not, is the sum of the masses of its points,
if the values at each point add up to one. -/
theorem sum_massOf (lumping : MassLumping) {masses : List (K × Vector K n)}
    (hUnity : ∀ q ∈ masses, ∑ a, q.2.get a = 1) :
    ∑ a, (massOf lumping masses).rowSum a = (masses.map Prod.fst).sum := by
  have hConsistent : ∑ a, (consistentMass masses).rowSum a = (masses.map Prod.fst).sum := by
    simp only [Dense.rowSum_eq_sum, consistentMass, Dense.get_ofFn]
    simp only [sum_list_sum]
    refine congrArg List.sum (List.map_congr_left fun q hq => ?_)
    simp only [← Finset.sum_mul, ← Finset.mul_sum]
    rw [hUnity q hq, mul_one, one_mul]
  cases lumping with
  | consistent => exact hConsistent
  | rowSum =>
      simp only [massOf, Dense.rowSum_lumped]
      exact hConsistent

/-- A multiple of all masses makes a multiple of the mass matrix, lumped or not. -/
theorem massOf_scale (lumping : MassLumping) (masses : List (K × Vector K n)) (r : K) :
    massOf lumping (masses.map fun q => (q.1 * r, q.2)) =
      .ofFn fun a b => (massOf lumping masses).get a b * r := by
  have hConsistent : consistentMass (masses.map fun q => (q.1 * r, q.2)) =
      .ofFn fun a b => (consistentMass masses).get a b * r := by
    refine Dense.ext fun a b => ?_
    simp only [consistentMass, Dense.get_ofFn, List.map_map, ← List.sum_map_mul_right]
    refine congrArg List.sum (List.map_congr_left fun q _ => ?_)
    exact (mul_assoc _ _ _).symm
  cases lumping with
  | consistent => exact hConsistent
  | rowSum =>
      refine Dense.ext fun a b => ?_
      simp only [massOf, hConsistent, Dense.lumped, Dense.get_ofFn, Dense.rowSum,
        List.sum_map_mul_right, ite_mul, zero_mul]

end Element

end Elastodynamics
