import Mathlib.Algebra.Order.Field.Basic
import Elastodynamics.Proofs.Algebra.Ordered
import Elastodynamics.Proofs.Algebra.Inverse
import Elastodynamics.Proofs.Element.Mass
/-!
Conservation of mass. The mass matrix of an element is symmetric, and its entries add up to the
density times the reference volume, although mass and volume are computed with different quadrature
rules. Lumping changes neither the sum of a row nor what gravity does. The volume of a tetrahedron
is a sixth of the volume that its edges span, whatever its orientation is.
-/
namespace Elastodynamics

open Quadrature (Rules)

variable {K : Type} [ExactScalar K] [Quadrature.Rules K] {S : Shape}

namespace Element

variable {e : Element S K} {nodes : Vector Nat S.nodeCount} {vertices : List (Vec3 K)}
  {properties : Properties K}

/-! ### Volume and mass as integrals -/

/-- The volume at the vertices `X` that a unit of volume at a point of the reference shape
becomes. -/
def volumeRatio (X : Vector (Vec3 K) S.nodeCount) (ξ : Vec3 K) : K :=
  Scalar.abs (fieldGradient X (S.gradients ξ)).det

theorem volume_eq_integrate {X : Vector (Vec3 K) S.nodeCount}
    {points : List (QuadraturePoint S.nodeCount K)}
    (h : (S.stiffnessRule.nodes.mapM fun p => quadraturePoint X p.1 p.2) = .ok points) :
    (points.map QuadraturePoint.weight).sum = S.stiffnessRule.integrate (volumeRatio X) := by
  refine congrArg List.sum (map_eq_map_of_mapM_eq_ok (fun p q hq => ?_) h)
  obtain ⟨_, _, rfl⟩ := quadraturePoint_eq_ok hq
  exact mul_comm _ _

theorem sum_masses_eq_integrate {X : Vector (Vec3 K) S.nodeCount} {density : K}
    {masses : List (K × Vector K S.nodeCount)}
    (h : (S.massRule.nodes.mapM fun p => massPoint X density p.1 p.2) = .ok masses) :
    (masses.map Prod.fst).sum = S.massRule.integrate fun ξ => volumeRatio X ξ * density := by
  refine congrArg List.sum (map_eq_map_of_mapM_eq_ok (fun p q hq => ?_) h)
  rw [massPoint_eq_ok hq, mul_assoc, mul_comm]
  rfl

/-- Both rules give the same volume, if those of the tetrahedron do so for the reference shape: on
the cube they are one rule, and a tetrahedron has the same Jacobian everywhere. -/
theorem integrate_volumeRatio
    (hSame : (Rules.tetrahedronDegreeTwo : Quadrature.Rule K).volume =
      (Rules.tetrahedronMidpoint : Quadrature.Rule K).volume) (X : Vector (Vec3 K) S.nodeCount) :
    S.massRule.integrate (volumeRatio X) = S.stiffnessRule.integrate (volumeRatio X) := by
  cases S with
  | tet4 =>
      have hConstant : volumeRatio X = fun _ => volumeRatio (S := .tet4) X 0 := rfl
      rw [hConstant, Quadrature.Rule.integrate_const, Quadrature.Rule.integrate_const]
      exact congrArg _ hSame
  | hex8 => rfl

/-- The sums of the rows of the mass matrix add up to the density times the volume. -/
theorem sum_rowSum_mass
    (hSame : (Rules.tetrahedronDegreeTwo : Quadrature.Rule K).volume =
      (Rules.tetrahedronMidpoint : Quadrature.Rule K).volume)
    (h : ofVertices nodes vertices properties = .ok e) :
    ∑ a, e.mass.rowSum a = properties.density * e.volume := by
  obtain ⟨X, _, points, hPoints, masses, hMasses, rfl⟩ := ofVertices_eq_ok_iff.mp h
  have hUnity (q : K × Vector K S.nodeCount) (hq : q ∈ masses) : ∑ a, q.2.get a = 1 := by
    obtain ⟨p, _, hPoint⟩ := exists_of_mem_mapM hMasses hq
    rw [massPoint_eq_ok hPoint]
    exact S.sum_basis p.2
  rw [sum_massOf _ hUnity, sum_masses_eq_integrate hMasses, Quadrature.Rule.integrate_mul,
    integrate_volumeRatio hSame, volume, volume_eq_integrate hPoints, mul_comm]

/-! ### Lumping -/

/-- How an element with lumped masses is related to the one with the consistent mass matrix. -/
structure Lumps (lumped consistent : Element S K) : Prop where
  diagonal : ∀ a b, a ≠ b → lumped.mass.get a b = 0
  rowSum : ∀ a, lumped.mass.rowSum a = consistent.mass.rowSum a
  total : ∑ a, ∑ b, lumped.mass.get a b = ∑ a, ∑ b, consistent.mass.get a b
  /-- What gravity adds to the residual at a node. -/
  gravity : ∀ data m g b,
    (lumped.residual data m g).get b - (lumped.residual data m 0).get b =
      (consistent.residual data m g).get b - (consistent.residual data m 0).get b

omit [Rules K] in
/-- Gravity acts on the sum of a row of the mass matrix. -/
theorem residual_sub_residual (data : ElementData S.nodeCount K) (m : LocalMotion S.nodeCount K)
    (g : Vec3 K) (b : Fin S.nodeCount) :
    (e.residual data m g).get b - (e.residual data m 0).get b = -g.scale (e.mass.rowSum b) := by
  simp only [get_residual_eq, inertialForce, Vec3.zero_scale]
  abel

/-- Elements with both kinds of masses can be made from the data of any element. -/
theorem exists_lumps (h : ofVertices nodes vertices properties = .ok e) :
    ∃ consistent lumped : Element S K,
      ofVertices nodes vertices { properties with lumping := .consistent } = .ok consistent ∧
      ofVertices nodes vertices { properties with lumping := .rowSum } = .ok lumped ∧
      lumped.Lumps consistent := by
  obtain ⟨X, hVertices, points, hPoints, masses, hMasses, rfl⟩ := ofVertices_eq_ok_iff.mp h
  refine ⟨_, _, ofVertices_eq_ok_iff.mpr ⟨X, hVertices, points, hPoints, masses, hMasses, rfl⟩,
    ofVertices_eq_ok_iff.mpr ⟨X, hVertices, points, hPoints, masses, hMasses, rfl⟩, ?_⟩
  have hRow (a : Fin S.nodeCount) : (massOf .rowSum masses).rowSum a =
      (massOf .consistent masses).rowSum a := Dense.rowSum_lumped _ a
  constructor
  case diagonal => exact fun a b hab => Dense.get_lumped_of_ne _ hab
  case rowSum => exact hRow
  case total =>
    simp only [← Dense.rowSum_eq_sum]
    exact Finset.sum_congr rfl fun a _ => hRow a
  case gravity =>
    intro data m g b
    rw [residual_sub_residual, residual_sub_residual]
    exact congrArg (fun s => -g.scale s) (hRow b)

/-! ### Tetrahedra -/

variable [LinearOrder K] [IsStrictOrderedRing K] [OrderedScalar K]

/-- The volume of a tetrahedron. -/
theorem volume_tet4 {e : Element .tet4 K} {nodes : Vector Nat (Shape.nodeCount .tet4)}
    {X₀ X₁ X₂ X₃ : Vec3 K} (hRule : (Rules.tetrahedronMidpoint : Quadrature.Rule K).volume = 4 / 3)
    (h : ofVertices nodes [X₀, X₁, X₂, X₃] properties = .ok e) :
    e.volume = |(Mat3.ofColumns (X₁ - X₀) (X₂ - X₀) (X₃ - X₀)).det| / 6 := by
  obtain ⟨X, hVertices, points, hPoints, masses, _, rfl⟩ := ofVertices_eq_ok_iff.mp h
  obtain rfl : X = #v[X₀, X₁, X₂, X₃] := Vector.toList_inj.mp hVertices
  have hRatio : volumeRatio (S := .tet4) #v[X₀, X₁, X₂, X₃] = fun _ =>
      |(Mat3.ofColumns (X₁ - X₀) (X₂ - X₀) (X₃ - X₀)).det| / 8 := by
    funext ξ
    have hEighth : (1 / 2 : K) ^ 3 = 1 / 8 := by norm_num
    rw [volumeRatio, fieldGradient_tet4, Mat3.det_scale, Scalar.abs_eq, Scalar.half_eq, hEighth,
      mul_one_div, abs_div, abs_of_pos (by norm_num : (0 : K) < 8)]
  rw [volume, volume_eq_integrate hPoints, hRatio, Quadrature.Rule.integrate_const,
    Shape.stiffnessRule, hRule]
  ring

/-- Mass is conserved. Whatever the density of an element is, its mass matrix is symmetric and holds
the mass of its volume, and lumping it moves mass within a row only. The rules may be any ones, if
the weights of those of the tetrahedron add up to its volume. -/
theorem mass_conserved
    (hMidpoint : (Rules.tetrahedronMidpoint : Quadrature.Rule K).volume = 4 / 3)
    (hDegreeTwo : (Rules.tetrahedronDegreeTwo : Quadrature.Rule K).volume = 4 / 3)
    (h : ofVertices nodes vertices properties = .ok e) :
    (∀ a b, e.mass.get a b = e.mass.get b a) ∧
    ∑ a, ∑ b, e.mass.get a b = properties.density * e.volume ∧
    (∃ consistent lumped : Element S K,
      ofVertices nodes vertices { properties with lumping := .consistent } = .ok consistent ∧
      ofVertices nodes vertices { properties with lumping := .rowSum } = .ok lumped ∧
      lumped.Lumps consistent) ∧
    ∀ X₀ X₁ X₂ X₃, S = .tet4 → vertices = [X₀, X₁, X₂, X₃] →
      e.volume = |(Mat3.ofColumns (X₁ - X₀) (X₂ - X₀) (X₃ - X₀)).det| / 6 := by
  refine ⟨fun a b => Constructed.get_mass_comm a b ⟨_, _, _, h⟩, ?_, exists_lumps h, ?_⟩
  · simp only [← Dense.rowSum_eq_sum]
    exact sum_rowSum_mass (hDegreeTwo.trans hMidpoint.symm) h
  · rintro X₀ X₁ X₂ X₃ rfl rfl
    exact volume_tet4 hMidpoint h

/-- A tetrahedron of volume one whose edges are left-handed, with the mass of its density. -/
theorem mass_conserved_reversed :
    let vertices : List (Vec3 ℚ) := [⟨1, 0, 0⟩, ⟨0, 0, 0⟩, ⟨0, 2, 0⟩, ⟨0, 0, 3⟩]
    let properties : Properties ℚ :=
      { law := .stVK, lame := ⟨1, 2⟩, density := 5, damping := ⟨0, 0⟩, lumping := .rowSum }
    ∃ e : Element .tet4 ℚ, ofVertices #v[0, 1, 2, 3] vertices properties = .ok e ∧
      (Mat3.ofColumns (⟨0, 0, 0⟩ - ⟨1, 0, 0⟩) (⟨0, 2, 0⟩ - ⟨1, 0, 0⟩)
        (⟨0, 0, 3⟩ - ⟨1, 0, 0⟩) : Mat3 ℚ).det = -6 ∧
      e.volume = 1 ∧ ∑ a, ∑ b, e.mass.get a b = 5 := by
  intro vertices properties
  have hMade : (ofVertices (S := .tet4) #v[0, 1, 2, 3] vertices properties).isOk = true := by
    decide +kernel
  have hDet : (Mat3.ofColumns (⟨0, 0, 0⟩ - ⟨1, 0, 0⟩) (⟨0, 2, 0⟩ - ⟨1, 0, 0⟩)
      (⟨0, 0, 3⟩ - ⟨1, 0, 0⟩) : Mat3 ℚ).det = -6 := by decide +kernel
  obtain ⟨e, h⟩ := exists_eq_ok_of_isOk hMade
  obtain ⟨_, hMass, _, hVolume⟩ := mass_conserved Quadrature.Rule.volume_tetrahedronMidpoint
    Quadrature.Rule.volume_tetrahedronDegreeTwo h
  have hOne : e.volume = 1 := by
    rw [hVolume _ _ _ _ rfl rfl, hDet]
    norm_num
  refine ⟨e, h, hDet, hOne, ?_⟩
  rw [hMass, hOne, mul_one]

end Element

end Elastodynamics
