import Elastodynamics.Proofs.Element.Equilibrium
import Elastodynamics.Proofs.Material.Linearization
import Elastodynamics.Proofs.PatchTest
/-!
Rigid modes. In its reference positions an element has the same stiffness matrix with every material
law, and this matrix maps the translations and the infinitesimal rotations of the nodes to zero.
With linear elasticity it is the stiffness matrix at all positions. Translations are mapped to zero
by the stiffness matrices of all laws at all positions.
-/
namespace Elastodynamics

variable {K : Type} [ExactScalar K] {S : Shape}

/-- That a matrix of node blocks maps the displacements `u` of the nodes to zero. -/
def Dense.Annihilates {n : Nat} (A : Dense (Mat3 K) n n) (u : Fin n → Vec3 K) : Prop :=
  ∀ a, ∑ b, (A.get a b).mulVec (u b) = 0

namespace Element

variable {e : Element S K} {nodes : Vector Nat S.nodeCount} {vertices : List (Vec3 K)}
  {properties : Properties K}

/-- How the stiffness matrices of an element with vertices `X` are related to the matrix `A`. -/
structure Linearizes (e : Element S K) (X : Vector (Vec3 K) S.nodeCount)
    (A : Dense (Mat3 K) S.nodeCount S.nodeCount) : Prop where
  reference : (e.computeData X).stiffness = A
  linearElastic : e.properties.law = .linearElastic → ∀ x, (e.computeData x).stiffness = A
  /-- At all positions, also where the stiffness matrix is another one. -/
  translation : ∀ x c, (e.computeData x).stiffness.Annihilates fun _ => c

/-! ### One stiffness matrix for all laws -/

/-- Whether an element can be made does not depend on its material law. -/
theorem ofVertices_withLaw [Quadrature.Rules K]
    (h : ofVertices nodes vertices properties = .ok e) (law : Law) :
    ofVertices nodes vertices { properties with law } =
      .ok { e with properties := { properties with law } } := by
  obtain ⟨X, hVertices, points, hPoints, masses, hMasses, rfl⟩ := ofVertices_eq_ok_iff.mp h
  exact ofVertices_eq_ok_iff.mpr ⟨X, hVertices, points, hPoints, masses, hMasses, rfl⟩

/-- The stiffness matrix of an element as if it were linear elastic. -/
def linearStiffness (e : Element S K) : Dense (Mat3 K) S.nodeCount S.nodeCount :=
  .ofFn fun a b => (e.points.map fun q => (LinearElastic.contraction e.properties.lame 1
    (q.gradients.get a) (q.gradients.get b)).scale q.weight).sum

/-- A linear elastic element has its stiffness matrix at all positions of its nodes. -/
theorem stiffness_of_linearElastic (hLaw : e.properties.law = .linearElastic)
    (x : Vector (Vec3 K) S.nodeCount) : (e.computeData x).stiffness = e.linearStiffness := by
  refine Dense.ext fun a b => ?_
  rw [get_stiffness, integratedContraction, hLaw, linearStiffness, Dense.get_ofFn]
  rfl

/-- Infinitesimal rotations of the vertices change no stress at any quadrature point. -/
theorem linearStiffness_rotation {X : Vector (Vec3 K) S.nodeCount}
    (hReference : ∀ q ∈ e.points, deformation X q = 1) {W : Mat3 K} (hW : W.transpose = -W) :
    e.linearStiffness.Annihilates fun a => W.mulVec (X.get a) := by
  intro a
  simp only [linearStiffness, Dense.get_ofFn, Mat3.list_sum_mulVec, List.map_map]
  rw [sum_list_sum]
  refine List.sum_eq_zero fun v hv => ?_
  obtain ⟨q, hq, rfl⟩ := List.mem_map.mp hv
  have hField : ∑ b, Mat3.outer (W.mulVec (X.get b)) (q.gradients.get b) = W := by
    calc ∑ b, Mat3.outer (W.mulVec (X.get b)) (q.gradients.get b)
        = W * deformation X q := by
          rw [deformation_eq, Finset.mul_sum]
          simp only [Mat3.mul_outer]
      _ = W := by rw [hReference q hq, mul_one]
  simp only [Function.comp_apply, Mat3.scale_mulVec, ← Vec3.sum_scale]
  rw [LinearElastic.sum_contraction_mulVec, hField, LinearElastic.stressDerivative_of_skew _ hW,
    Mat3.zero_mulVec, Vec3.zero_scale]

theorem Constructed.stiffness_translation [Quadrature.Rules K] (h : e.Constructed)
    (x : Vector (Vec3 K) S.nodeCount) (c : Vec3 K) :
    (e.computeData x).stiffness.Annihilates fun _ => c := by
  intro a
  rw [← Mat3.sum_mulVec, h.sum_stiffness_row, Mat3.zero_mulVec]

/-! ### Rigid modes -/

variable [LinearOrder K] [IsStrictOrderedRing K] [OrderedScalar K]

/-- Where nothing is deformed, an element is as stiff as if it were linear elastic. -/
theorem stiffness_of_reference (hLog : Scalar.log (1 : K) = 0) {X : Vector (Vec3 K) S.nodeCount}
    (hReference : ∀ q ∈ e.points, deformation X q = 1) :
    (e.computeData X).stiffness = e.linearStiffness := by
  refine Dense.ext fun a b => ?_
  rw [get_stiffness, integratedContraction, linearStiffness, Dense.get_ofFn]
  refine congrArg List.sum (List.map_congr_left fun q hq => ?_)
  rw [hReference q hq, Law.contraction_one _ _ hLog]

/-- Elements of any form that are made from the same data with different material laws share one
stiffness matrix in their reference positions. It maps all rigid modes to zero: translations and
infinitesimal rotations of the vertices. -/
theorem rigid_modes [Quadrature.Rules K] (hLog : Scalar.log (1 : K) = 0)
    (h : ofVertices nodes vertices properties = .ok e) :
    ∃ (X : Vector (Vec3 K) S.nodeCount) (A : Dense (Mat3 K) S.nodeCount S.nodeCount),
      X.toList = vertices ∧ e.Linearizes X A ∧
      (∀ law, ∃ e', ofVertices nodes vertices { properties with law } = .ok e' ∧
        e'.Linearizes X A) ∧
      (∀ c, A.Annihilates fun _ => c) ∧
      ∀ W : Mat3 K, W.transpose = -W → A.Annihilates fun a => W.mulVec (X.get a) := by
  obtain ⟨_, rfl, X, _, hVertices, hParts⟩ := ofVertices_eq_ok h
  have hReference (q : QuadraturePoint S.nodeCount K) (hq : q ∈ e.points) :
      deformation X q = 1 := hParts.deformation_eq_one hq
  have hLinearizes (law : Law) :
      Linearizes { e with properties := { e.properties with law } } X e.linearStiffness := by
    have hConstructed : Constructed { e with properties := { e.properties with law } } :=
      ⟨_, _, _, ofVertices_withLaw h law⟩
    constructor
    case reference => exact stiffness_of_reference hLog hReference
    case linearElastic => exact fun hLaw x => stiffness_of_linearElastic hLaw x
    case translation => exact hConstructed.stiffness_translation
  refine ⟨X, e.linearStiffness, hVertices, hLinearizes e.properties.law,
    fun law => ⟨_, ofVertices_withLaw h law, hLinearizes law⟩, fun c => ?_,
    fun W hW => linearStiffness_rotation hReference hW⟩
  rw [← stiffness_of_reference hLog hReference]
  exact Constructed.stiffness_translation ⟨_, _, _, h⟩ X c

/-- A bent hexahedron of a Neo-Hookean material, turned about the last axis. -/
theorem rigid_modes_bent :
    let properties : Properties ℚ :=
      { law := .neoHookean, lame := ⟨1, 2⟩, density := 1, damping := ⟨0, 0⟩,
        lumping := .consistent }
    ∃ (e e' : Element .hex8 ℚ) (X : Vector (Vec3 ℚ) 8), X.toList = bentVertices ∧
      Scalar.log (1 : ℚ) = 0 ∧
      ofVertices #v[0, 1, 2, 3, 4, 5, 6, 7] bentVertices properties = .ok e ∧
      ofVertices #v[0, 1, 2, 3, 4, 5, 6, 7] bentVertices { properties with law := .stVK } = .ok e' ∧
      (e.computeData X).stiffness = (e'.computeData X).stiffness ∧
      (e.computeData X).stiffness.Annihilates
        fun a => (⟨0, -1, 0, 1, 0, 0, 0, 0, 0⟩ : Mat3 ℚ).mulVec (X.get a) := by
  intro properties
  have hMade : (ofVertices (S := .hex8) #v[0, 1, 2, 3, 4, 5, 6, 7] bentVertices properties).isOk =
      true := by decide +kernel
  obtain ⟨e, h⟩ := exists_eq_ok_of_isOk hMade
  obtain ⟨X, A, hVertices, hLinearizes, hLaws, _, hRotation⟩ := rigid_modes rfl h
  obtain ⟨e', hMade', hLinearizes'⟩ := hLaws .stVK
  refine ⟨e, e', X, hVertices, rfl, h, hMade',
    hLinearizes.reference.trans hLinearizes'.reference.symm, ?_⟩
  rw [hLinearizes.reference]
  exact hRotation _ (by decide +kernel)

end Element

end Elastodynamics
