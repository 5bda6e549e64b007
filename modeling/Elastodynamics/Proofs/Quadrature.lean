import Mathlib.Algebra.CharZero.Defs
import Mathlib.Tactic.IntervalCases
import Mathlib.Tactic.LinearCombination
import Mathlib.Tactic.NormNum.NatFactorial
import Elastodynamics.Proofs.Algebra.Vectors
import Elastodynamics.Quadrature.GaussLegendre
import Elastodynamics.Quadrature.Tetrahedron
/-!
Quadrature rules. A rule of triples integrates a product of functions of one coordinate each as the
rule on the line does, so it is exact in each coordinate as far as that one is. The rules in closed
form have the degrees that they are meant for as soon as their square roots are right. The tables
hold floating point numbers, of which no such statement can be made: of them it is said for which
degrees there is a rule, and that no weight goes without a point.
-/
namespace Elastodynamics.Quadrature

open Nat (factorial)

namespace Rule

section

variable {K : Type} [ExactScalar K]

/-- All points of a rule count, and none is taken away. -/
def Positive [LT K] (R : Rule K) : Prop := ∀ p ∈ R.nodes, 0 < p.1

theorem integrate_mul (R : Rule K) (f : Vec3 K → K) (c : K) :
    R.integrate (fun ξ => f ξ * c) = R.integrate f * c := by
  rw [integrate, integrate, ← List.sum_map_mul_right]
  refine congrArg List.sum (List.map_congr_left fun p _ => ?_)
  exact mul_right_comm _ _ _

/-- The volume that a rule integrates over: the sum of its weights. -/
def volume (R : Rule K) : K := (R.nodes.map Prod.fst).sum

theorem integrate_const (R : Rule K) (c : K) : R.integrate (fun _ => c) = c * R.volume :=
  List.sum_map_mul_left R.nodes Prod.fst c

/-- The weights of both rules of the tetrahedron in closed form add up to the volume of the
reference tetrahedron. -/
theorem volume_tetrahedronMidpoint : (tetrahedronMidpoint : Rule K).volume = 4 / 3 := by
  simp [volume, tetrahedronMidpoint, nodes, Scalar.ofNat_eq_cast]

theorem volume_tetrahedronDegreeTwo : (tetrahedronDegreeTwo : Rule K).volume = 4 / 3 := by
  simp [volume, tetrahedronDegreeTwo, nodes, List.replicate, Scalar.ofNat_eq_cast]
  ring

/-! ### Nodes -/

/-- The nodes of the rule of all triples, in order. -/
theorem nodes_tensor (line : List (K × K)) : (tensor line).nodes =
    line.flatMap fun a => line.flatMap fun b => line.map fun c =>
      (a.1 * b.1 * c.1, ⟨a.2, b.2, c.2⟩) :=
  (List.zip_of_prod rfl rfl).symm

theorem mem_nodes_tensor {line : List (K × K)} {w : K} {ξ : Vec3 K} :
    (w, ξ) ∈ (tensor line).nodes ↔ ∃ a ∈ line, ∃ b ∈ line, ∃ c ∈ line,
      w = a.1 * b.1 * c.1 ∧ ξ = ⟨a.2, b.2, c.2⟩ := by
  simp [nodes_tensor, eq_comm]

/-- The nodes of the Gauss rule of the cube. -/
theorem of_mem_hexahedronGaussTwo {w : K} {ξ : Vec3 K}
    (h : (w, ξ) ∈ (hexahedronGaussTwo : Rule K).nodes) :
    let r : K := 1 / Scalar.sqrt (Scalar.ofNat 3)
    w = 1 ∧ (ξ.x = r ∨ ξ.x = -r) ∧ (ξ.y = r ∨ ξ.y = -r) ∧ (ξ.z = r ∨ ξ.z = -r) := by
  intro r
  have hLine {a : K × K} (ha : a ∈ [(1, r), (1, -r)]) : a.1 = 1 ∧ (a.2 = r ∨ a.2 = -r) := by
    rcases List.mem_pair.mp ha with rfl | rfl
    · exact ⟨rfl, .inl rfl⟩
    · exact ⟨rfl, .inr rfl⟩
  obtain ⟨a, ha, b, hb, c, hc, rfl, rfl⟩ := mem_nodes_tensor.mp h
  obtain ⟨ha, hx⟩ := hLine ha
  obtain ⟨hb, hy⟩ := hLine hb
  obtain ⟨hc, hz⟩ := hLine hc
  rw [ha, hb, hc, one_mul, one_mul]
  exact ⟨rfl, hx, hy, hz⟩

/-- The nodes of the rule of the tetrahedron with four points. -/
theorem nodes_tetrahedronDegreeTwo :
    let p : K := -((5 + Scalar.sqrt (Scalar.ofNat 5)) / 10)
    let q : K := (3 * Scalar.sqrt (Scalar.ofNat 5) - 5) / 10
    (tetrahedronDegreeTwo : Rule K).nodes =
      [(1 / 3, ⟨p, p, q⟩), (1 / 3, ⟨p, q, p⟩), (1 / 3, ⟨q, p, p⟩), (1 / 3, ⟨p, p, p⟩)] := by
  simp [tetrahedronDegreeTwo, nodes, List.replicate, Scalar.ofNat_eq_cast]

theorem of_mem_tetrahedronDegreeTwo {w : K} {ξ : Vec3 K}
    (h : (w, ξ) ∈ (tetrahedronDegreeTwo : Rule K).nodes) :
    let p : K := -((5 + Scalar.sqrt (Scalar.ofNat 5)) / 10)
    let q : K := (3 * Scalar.sqrt (Scalar.ofNat 5) - 5) / 10
    w = 1 / 3 ∧ (ξ = ⟨p, p, q⟩ ∨ ξ = ⟨p, q, p⟩ ∨ ξ = ⟨q, p, p⟩ ∨ ξ = ⟨p, p, p⟩) := by
  intro p q
  simpa only [nodes_tetrahedronDegreeTwo, List.mem_cons, Prod.mk.injEq, List.not_mem_nil, or_false,
    ← and_or_left] using h

/-! ### Exactness -/

/-- The weighted sum of the values of a function at the points of a rule on the line. -/
def integrateLine (line : List (K × K)) (f : K → K) : K := (line.map fun (w, x) => f x * w).sum

/-- A rule of triples takes the integrals over the coordinates one by one. -/
theorem integrate_tensor (line : List (K × K)) (f g h : K → K) :
    (tensor line).integrate (fun ξ => f ξ.x * g ξ.y * h ξ.z) =
      integrateLine line f * integrateLine line g * integrateLine line h := by
  have hSum {β : Type} (l : List β) (F : β → List K) :
      (l.flatMap F).sum = (l.map fun b => (F b).sum).sum := by
    rw [List.flatMap_def, List.sum_flatten, List.map_map]
    rfl
  have hInner (a b : K × K) : (line.map fun c => f a.2 * g b.2 * h c.2 * (a.1 * b.1 * c.1)).sum =
      f a.2 * a.1 * (g b.2 * b.1) * integrateLine line h := by
    rw [integrateLine, ← List.sum_map_mul_left]
    refine congrArg List.sum (List.map_congr_left fun c _ => ?_)
    ring
  rw [integrate, nodes_tensor]
  simp only [List.map_flatMap, List.map_map, hSum, Function.comp_def, hInner,
    List.sum_map_mul_right, List.sum_map_mul_left]
  simp only [integrateLine]

/-- The integral of the power `x ^ n` from `-1` to `1`. -/
def lineMoment (n : ℕ) : K := (1 - (-1) ^ (n + 1)) / (n + 1)

/-- That a rule on the line integrates all polynomials of the given degree. -/
def ExactOnLine (line : List (K × K)) (degree : ℕ) : Prop :=
  ∀ n ≤ degree, integrateLine line (· ^ n) = lineMoment n

/-- That a rule on the cube integrates all polynomials of the given degree in each coordinate. -/
def ExactOnCube (R : Rule K) (degree : ℕ) : Prop :=
  ∀ i ≤ degree, ∀ j ≤ degree, ∀ k ≤ degree,
    R.integrate (fun ξ => ξ.x ^ i * ξ.y ^ j * ξ.z ^ k) = lineMoment i * lineMoment j * lineMoment k

/-- The integral of a product of powers of three barycentric coordinates over the reference
tetrahedron, whose volume is eight times the one of the unit simplex. -/
def simplexMoment (i j k : ℕ) : K :=
  8 * (factorial i * factorial j * factorial k) / factorial (i + j + k + 3)

/-- That a rule on the tetrahedron integrates all polynomials of the given total degree. An affine
function is a constant and multiples of three barycentric coordinates, so their powers will do. -/
def ExactOnTetrahedron (R : Rule K) (degree : ℕ) : Prop :=
  ∀ i j k, i + j + k ≤ degree →
    R.integrate (fun ξ => (Scalar.half * (1 + ξ.x)) ^ i * (Scalar.half * (1 + ξ.y)) ^ j *
      (Scalar.half * (1 + ξ.z)) ^ k) = simplexMoment i j k

theorem ExactOnLine.tensor {line : List (K × K)} {degree : ℕ} (h : ExactOnLine line degree) :
    ExactOnCube (tensor line) degree := by
  intro i hi j hj k hk
  rw [integrate_tensor line (· ^ i) (· ^ j) (· ^ k), h i hi, h j hj, h k hk]

variable [CharZero K]

/-- A rule that is exact for any polynomials at all has the volume of the reference tetrahedron. -/
theorem ExactOnTetrahedron.volume_eq {R : Rule K} {degree : ℕ} (h : ExactOnTetrahedron R degree) :
    R.volume = 4 / 3 := by
  have hOne := h 0 0 0 (Nat.zero_le degree)
  simp only [pow_zero, mul_one, integrate_const, one_mul] at hOne
  rw [hOne, simplexMoment]
  norm_num

/-- With the right root, the Gauss rule with two points is exact for polynomials of degree three. -/
theorem exactOnCube_hexahedronGaussTwo (hRoot : (Scalar.sqrt (Scalar.ofNat 3) : K) ^ 2 = 3) :
    ExactOnCube (hexahedronGaussTwo : Rule K) 3 := by
  have hSquare : (1 / Scalar.sqrt (Scalar.ofNat 3) : K) ^ 2 = 1 / 3 := by
    rw [div_pow, hRoot, one_pow]
  apply ExactOnLine.tensor
  intro n hn
  generalize (1 / Scalar.sqrt (Scalar.ofNat 3) : K) = r at hSquare ⊢
  simp only [integrateLine, List.map_cons, List.map_nil, List.sum_cons, List.sum_nil, lineMoment]
  interval_cases n <;> norm_num
  · linear_combination 2 * hSquare
  · ring

/-- The midpoint rule is exact for polynomials of degree one. -/
theorem exactOnTetrahedron_midpoint : ExactOnTetrahedron (tetrahedronMidpoint : Rule K) 1 := by
  intro i j k hDegree
  have hNodes : (tetrahedronMidpoint : Rule K).nodes =
      [(4 / 3, ⟨-(1 / 2), -(1 / 2), -(1 / 2)⟩)] := by
    simp [tetrahedronMidpoint, nodes, Scalar.ofNat_eq_cast, Scalar.half_eq]
  simp only [integrate, hNodes, List.map_cons, List.map_nil, List.sum_cons, List.sum_nil,
    simplexMoment, Scalar.half_eq]
  obtain ⟨hi, hj, hk⟩ : i ≤ 1 ∧ j ≤ 1 - i ∧ k ≤ 1 - i - j := by omega
  interval_cases i <;> interval_cases j <;> interval_cases k <;> norm_num

/-- With the right root, the rule with four points is exact for polynomials of degree two. -/
theorem exactOnTetrahedron_degreeTwo (hRoot : (Scalar.sqrt (Scalar.ofNat 5) : K) ^ 2 = 5) :
    ExactOnTetrahedron (tetrahedronDegreeTwo : Rule K) 2 := by
  intro i j k hDegree
  -- Each point has the barycentric coordinate `1 - 3 * t` at the vertex it is near, and `t` at the
  -- other ones.
  obtain ⟨t, hNear, hFar, hT⟩ : ∃ t : K,
      -((5 + Scalar.sqrt (Scalar.ofNat 5)) / 10) = 2 * t - 1 ∧
      (3 * Scalar.sqrt (Scalar.ofNat 5) - 5) / 10 = 1 - 6 * t ∧ 20 * t ^ 2 - 10 * t + 1 = 0 :=
    ⟨(5 - Scalar.sqrt (Scalar.ofNat 5)) / 20, by ring, by ring, by linear_combination hRoot / 20⟩
  simp only [integrate, nodes_tetrahedronDegreeTwo, hNear, hFar, List.map_cons, List.map_nil,
    List.sum_cons, List.sum_nil, simplexMoment, Scalar.half_eq]
  obtain ⟨hi, hj, hk⟩ : i ≤ 2 ∧ j ≤ 2 - i ∧ k ≤ 2 - i - j := by omega
  interval_cases i <;> interval_cases j <;> interval_cases k <;> norm_num
  · ring
  · linear_combination hT / 5
  · ring
  · linear_combination -hT / 15
  · linear_combination hT / 5
  · ring
  · linear_combination -hT / 15
  · linear_combination -hT / 15
  · linear_combination hT / 5

end

/-! ### Complete tables -/

/-- That every weight of a rule has its point and every point its weight. -/
def Complete {α : Type} (R : Rule α) : Prop := R.weights.length = R.points.length

theorem complete_tensor {α : Type} [Scalar α] (line : List (α × α)) : (tensor line).Complete := by
  rw [Complete, tensor, List.length_map, List.length_map]

theorem length_points_tensor {α : Type} [Scalar α] (line : List (α × α)) :
    (tensor line).points.length = line.length ^ 3 := by
  simp [tensor, List.length_flatMap, pow_succ, mul_assoc]

end Rule

theorem Tetrahedron.complete_ofOrbits (orbits : List Orbit) : (ofOrbits orbits).Complete := by
  simp [Rule.Complete, ofOrbits, List.length_flatMap]

theorem Tetrahedron.complete_rule {strength : ℕ} {R : Rule Float} (h : rule strength = .ok R) :
    R.Complete := by
  rw [rule] at h
  repeat' split at h
  all_goals cases h
  case isTrue.refl | isFalse.isTrue.refl | isFalse.isFalse.isTrue.refl => rfl
  all_goals exact complete_ofOrbits _

/-- The tables have a rule of the tetrahedron for every degree up to ten. -/
theorem Tetrahedron.exists_rule_iff {strength : ℕ} :
    (∃ R, rule strength = .ok R) ↔ strength ≤ 10 := by
  rw [rule]
  split_ifs with _ _ _ _ _ _ _ _ hTen
  case neg =>
    exact iff_of_false nofun hTen
  all_goals exact iff_of_true ⟨_, rfl⟩ (by omega)

/-- The Gauss rule on the line has as many points as it is asked for. -/
theorem GaussLegendre.length_line (n : ℕ) : (line n).length = n := by
  simp [line]
  omega

theorem GaussLegendre.complete_hexahedron {n : ℕ} {R : Rule Float} (h : hexahedron n = some R) :
    R.Complete ∧ R.points.length = n ^ 3 := by
  rw [hexahedron] at h
  split at h
  · cases h
  · cases h
    exact ⟨Rule.complete_tensor _, by rw [Rule.length_points_tensor, length_line]⟩

end Elastodynamics.Quadrature
