import Elastodynamics.Proofs.Element.Affine
import Elastodynamics.Proofs.Element.Forces
import Elastodynamics.Proofs.Element.Integrals
/-!
Uniform deformation. If the nodes of an element, however distorted it may be, are where an affine
map takes its vertices, then the linear part of the map is the deformation gradient at every
quadrature point. The energy is then that of the reference volume, and the force on a node is the
stress applied to the integrated gradient of its basis function.
-/
namespace Elastodynamics.Element

variable {K : Type} [ExactScalar K] [Quadrature.Rules K] {S : Shape} {e : Element S K}

/-- The data of an element with the deformation gradient `A` everywhere. -/
structure IsUniform (e : Element S K) (A : Mat3 K) (data : ElementData S.nodeCount K) : Prop where
  deformations : data.deformations = List.replicate e.points.length A
  stresses : data.stresses =
    List.replicate e.points.length (e.properties.law.stress e.properties.lame A)
  energy : data.energy = e.volume * e.properties.law.energy e.properties.lame A
  elasticForce : ∀ a, e.elasticForce data a = (e.properties.law.stress e.properties.lame A).mulVec
    (e.points.map fun q => (q.gradients.get a).scale q.weight).sum
  /-- Without gravity, the residual at rest is the elastic force. -/
  residual : ∀ x a, (e.residual data ⟨x, .replicate _ 0, .replicate _ 0⟩ 0).get a =
    e.elasticForce data a

/-- A constructed element has one quadrature point per point of the rule of its shape. -/
theorem length_points {nodes : Vector Nat S.nodeCount} {vertices : List (Vec3 K)}
    {properties : Properties K} (h : ofVertices nodes vertices properties = .ok e) :
    e.points.length = (S.stiffnessRule : Quadrature.Rule K).nodes.length := by
  obtain ⟨_, _, points, hPoints, _, _, rfl⟩ := ofVertices_eq_ok_iff.mp h
  exact length_of_mapM_eq_ok hPoints

/-- Sums over the quadrature points of an element with the same deformation gradient at each. -/
theorem Constructed.isUniform (h : e.Constructed) {A : Mat3 K}
    {x : Vector (Vec3 K) S.nodeCount} (hx : ∀ q ∈ e.points, deformation x q = A) :
    e.IsUniform A (e.computeData x) := by
  have hDeformations : (e.computeData x).deformations = List.replicate e.points.length A := by
    calc (e.computeData x).deformations
        = e.points.map fun _ => A := List.map_congr_left hx
      _ = List.replicate e.points.length A := List.map_const' ..
  constructor
  case deformations => exact hDeformations
  case stresses =>
    calc (e.computeData x).stresses
        = (e.computeData x).deformations.map (e.properties.law.stress e.properties.lame) := rfl
      _ = List.replicate e.points.length (e.properties.law.stress e.properties.lame A) := by
          rw [hDeformations, List.map_replicate]
  case energy =>
    rw [energy_eq, volume, ← List.sum_map_mul_right]
    apply congrArg List.sum
    apply List.map_congr_left
    intro q hq
    rw [hx q hq]
  case elasticForce =>
    intro a
    rw [elasticForce_eq, Mat3.mulVec_list_sum, List.map_map]
    apply congrArg List.sum
    apply List.map_congr_left
    intro q hq
    rw [hx q hq, Function.comp_apply, Mat3.mulVec_scale]
  case residual =>
    intro x a
    apply h.get_residual_atRest
    · exact fun a => Vector.getElem_replicate a.isLt
    · exact fun a => Vector.getElem_replicate a.isLt

/-- The patch test. Whatever the vertices are that an element was made from, every affine map of
them deforms it uniformly, with the linear part of the map. Where the vertices are, in particular,
every deformation gradient is the identity. -/
theorem patch_test {nodes : Vector Nat S.nodeCount} {vertices : List (Vec3 K)}
    {properties : Properties K} (h : ofVertices nodes vertices properties = .ok e) :
    e.properties = properties ∧
    e.points.length = (S.stiffnessRule : Quadrature.Rule K).nodes.length ∧
    ∃ X : Vector (Vec3 K) S.nodeCount, X.toList = vertices ∧
      (∀ (A : Mat3 K) (c : Vec3 K),
        e.IsUniform A (e.computeData (X.map fun v => A.mulVec v + c))) ∧
      e.IsUniform 1 (e.computeData X) := by
  have hConstructed : e.Constructed := ⟨nodes, vertices, properties, h⟩
  obtain ⟨_, hProperties, X, _, hVertices, hParts⟩ := ofVertices_eq_ok h
  have hReference (q : QuadraturePoint S.nodeCount K) (hq : q ∈ e.points) :
      deformation X q = 1 := by
    obtain ⟨_, _, hPoint⟩ := hParts.exists_quadraturePoint q hq
    exact fieldGradient_of_quadraturePoint hPoint
  have hAffine (A : Mat3 K) (c : Vec3 K) (q : QuadraturePoint S.nodeCount K) (hq : q ∈ e.points) :
      deformation (X.map fun v => A.mulVec v + c) q = A := by
    rw [hConstructed.deformation_affine (fun a => vector_get_map _ X a) hq, hReference q hq,
      mul_one]
  exact ⟨hProperties, length_points h, X, hVertices,
    fun A c => hConstructed.isUniform (hAffine A c), hConstructed.isUniform hReference⟩

/-- The vertices of a hexahedron whose faces are not flat. -/
def bentVertices : List (Vec3 ℚ) :=
  [⟨0, 0, 0⟩, ⟨2, 0, 0⟩, ⟨3, 2, 0⟩, ⟨0, 2, 1⟩, ⟨0, 0, 3⟩, ⟨2, 0, 2⟩, ⟨3, 3, 4⟩, ⟨-1, 2, 3⟩]

/-- A bent hexahedron is sheared, stretched and moved. -/
theorem patch_test_bent :
    let properties : Properties ℚ :=
      { law := .stVK, lame := ⟨1, 2⟩, density := 1, damping := ⟨0, 0⟩, lumping := .consistent }
    let A : Mat3 ℚ := ⟨1, 3, 0, 0, 2, 0, 0, 0, -1⟩
    ∃ (e : Element .hex8 ℚ) (X : Vector (Vec3 ℚ) 8), X.toList = bentVertices ∧
      ofVertices #v[0, 1, 2, 3, 4, 5, 6, 7] bentVertices properties = .ok e ∧
      (e.computeData (X.map fun v => A.mulVec v + ⟨1, 2, 3⟩)).deformations =
        List.replicate 8 A := by
  intro properties A
  let made : Except ElementError (Element .hex8 ℚ) :=
    ofVertices #v[0, 1, 2, 3, 4, 5, 6, 7] bentVertices properties
  have hMade : made.isOk = true := by decide +kernel
  cases h : made with
  | error _ =>
      rw [h] at hMade
      cases hMade
  | ok e =>
      obtain ⟨_, hLength, X, hVertices, hAffine, _⟩ := patch_test h
      have hEight : e.points.length = 8 := hLength.trans rfl
      exact ⟨e, X, hVertices, h, hEight ▸ (hAffine A ⟨1, 2, 3⟩).deformations⟩

end Elastodynamics.Element
