import Mathlib.Tactic.FinCases
import Mathlib.Tactic.Linarith
import Mathlib.Tactic.Positivity
import Elastodynamics.Proofs.Algebra.Ordered
import Elastodynamics.Proofs.Quadrature
import Elastodynamics.Shape
/-!
Signs of basis functions and of quadrature weights. No basis function is negative inside of its
shape. The rules in closed form have positive weights, and their points for masses are inside unless
the square roots that they are made of are far from what they should be.
-/
namespace Elastodynamics

variable {K : Type} [ExactScalar K]

namespace Shape

/-! ### Basis functions -/

variable [LinearOrder K] [IsStrictOrderedRing K]

/-- Whether a point is in the reference shape. -/
def Contains : Shape → Vec3 K → Prop
  | tet4, p => (-1 ≤ p.x ∧ -1 ≤ p.y ∧ -1 ≤ p.z) ∧ p.x + p.y + p.z ≤ -1
  | hex8, p => (-1 ≤ p.x ∧ p.x ≤ 1) ∧ (-1 ≤ p.y ∧ p.y ≤ 1) ∧ -1 ≤ p.z ∧ p.z ≤ 1

theorem hat_nonneg {s x : K} (hs : s = 1 ∨ s = -1) (hx : -1 ≤ x ∧ x ≤ 1) : 0 ≤ hat s x := by
  have hValue : 0 ≤ 1 + s * x := by
    rcases hs with rfl | rfl
    · linarith
    · linarith
  rw [hat, Scalar.ofNat_eq_cast]
  positivity

omit [LinearOrder K] [IsStrictOrderedRing K] in
/-- The coordinates of the vertices of the cube are signs. -/
theorem cubeSigns_eq (a : Fin 8) :
    let s : Vec3 K := cubeSigns.get a
    (s.x = 1 ∨ s.x = -1) ∧ (s.y = 1 ∨ s.y = -1) ∧ (s.z = 1 ∨ s.z = -1) := by
  fin_cases a <;> simp [cubeSigns, Vector.get]

/-- No basis function is negative inside of the shape. -/
theorem basis_nonneg {S : Shape} {p : Vec3 K} (h : S.Contains p) (a : Fin S.nodeCount) :
    0 ≤ (S.basis p).get a := by
  cases S with
  | tet4 =>
      obtain ⟨⟨hx, hy, hz⟩, hSum⟩ := h
      fin_cases a <;> simp [basis, Vector.get, Scalar.half_eq] <;> linarith
  | hex8 =>
      obtain ⟨hx, hy, hz⟩ := h
      obtain ⟨sx, sy, sz⟩ := cubeSigns_eq (K := K) a
      show 0 ≤ (cubeSigns.map fun s => hat s.x p.x * hat s.y p.y * hat s.z p.z).get a
      rw [vector_get_map]
      exact mul_nonneg (mul_nonneg (hat_nonneg sx hx) (hat_nonneg sy hy)) (hat_nonneg sz hz)

/-! ### Quadrature rules in closed form -/

theorem positive_stiffnessRule (S : Shape) : (S.stiffnessRule : Quadrature.Rule K).Positive := by
  rintro ⟨w, ξ⟩ h
  cases S with
  | tet4 =>
      cases List.mem_singleton.mp h
      rw [Scalar.ofNat_eq_cast, Scalar.ofNat_eq_cast]
      positivity
  | hex8 =>
      dsimp only
      rw [(Quadrature.Rule.of_mem_hexahedronGaussTwo h).1]
      exact one_pos

theorem positive_massRule (S : Shape) : (S.massRule : Quadrature.Rule K).Positive := by
  rintro ⟨w, ξ⟩ h
  cases S with
  | tet4 =>
      dsimp only
      rw [(Quadrature.Rule.of_mem_tetrahedronDegreeTwo h).1]
      positivity
  | hex8 =>
      dsimp only
      rw [(Quadrature.Rule.of_mem_hexahedronGaussTwo h).1]
      exact one_pos

/-- The points for masses are in the shape, even if the roots that they are made of are only
rough. -/
theorem contains_massRule {S : Shape} (hFive : 0 ≤ Scalar.sqrt (Scalar.ofNat 5 : K))
    (hFive' : Scalar.sqrt (Scalar.ofNat 5 : K) ≤ 5)
    (hThree : 1 ≤ Scalar.sqrt (Scalar.ofNat 3 : K)) :
    ∀ p ∈ (S.massRule : Quadrature.Rule K).nodes, S.Contains p.2 := by
  rintro ⟨w, ξ⟩ h
  cases S with
  | tet4 =>
      obtain ⟨_, rfl | rfl | rfl | rfl⟩ := Quadrature.Rule.of_mem_tetrahedronDegreeTwo h
      all_goals
        refine ⟨⟨?_, ?_, ?_⟩, ?_⟩
        all_goals
          dsimp only
          linarith
  | hex8 =>
      obtain ⟨_, hx, hy, hz⟩ := Quadrature.Rule.of_mem_hexahedronGaussTwo h
      have hPos : 0 ≤ 1 / Scalar.sqrt (Scalar.ofNat 3 : K) := by positivity
      have hLe : 1 / Scalar.sqrt (Scalar.ofNat 3 : K) ≤ 1 :=
        (div_le_one₀ (one_pos.trans_le hThree)).mpr hThree
      have hCoordinate {x : K} (hx : x = 1 / Scalar.sqrt (Scalar.ofNat 3) ∨
          x = -(1 / Scalar.sqrt (Scalar.ofNat 3))) : -1 ≤ x ∧ x ≤ 1 := by
        rcases hx with rfl | rfl <;> constructor <;> linarith
      exact ⟨hCoordinate hx, hCoordinate hy, hCoordinate hz⟩

end Shape

end Elastodynamics
