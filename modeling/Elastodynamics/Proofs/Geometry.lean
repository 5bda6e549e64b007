import Mathlib.Tactic.Positivity
import Elastodynamics.Proofs.Algebra.Similarity
import Elastodynamics.Proofs.Element.Mass
/-!
Acceptance of geometry. Whether an element can be made from reference positions of its vertices does
not depend on the unit of length and on where the element is placed: scaled, rotated, reflected and
translated vertices are accepted exactly if the vertices are. Volumes, quadrature weights and masses
change by the third power of the scale. A Jacobian that is not degenerate has an inverse.
-/
namespace Elastodynamics

variable {K : Type} [ExactScalar K] {S : Shape}

/-- The position `X` after a rotation or reflection by `Q`, scaled by `s` and translated by `c`. -/
def Vec3.similar (s : K) (Q : Mat3 K) (c X : Vec3 K) : Vec3 K := (Q.mulVec X).scale s + c

/-! ### Similar elements -/

variable [LinearOrder K]

/-- The quadrature point of moved vertices that belongs to the point `q` of the vertices. -/
def QuadraturePoint.similar {n : Nat} (s : K) (Q : Mat3 K) (q : QuadraturePoint n K) :
    QuadraturePoint n K where
  weight := q.weight * |s| ^ 3
  gradients := q.gradients.map fun g => (Q.mulVec g).scale s⁻¹

namespace Element

/-- The element of moved vertices that belongs to the element `e` of the vertices. -/
def similar (s : K) (Q : Mat3 K) (e : Element S K) : Element S K :=
  { e with
    points := e.points.map (QuadraturePoint.similar s Q)
    mass := .ofFn fun a b => e.mass.get a b * |s| ^ 3 }

/-- How the element `e'` of vertices that were scaled by `s` and turned by `Q` is related to the
element `e` of the vertices. -/
structure IsSimilar (s : K) (Q : Mat3 K) (e e' : Element S K) : Prop where
  nodes_eq : e'.nodes = e.nodes
  properties_eq : e'.properties = e.properties
  volume_eq : e'.volume = e.volume * |s| ^ 3
  weights_eq : e'.points.map QuadraturePoint.weight = e.points.map fun q => q.weight * |s| ^ 3
  gradients_eq : e'.points.map QuadraturePoint.gradients =
    e.points.map fun q => q.gradients.map fun g => (Q.mulVec g).scale s⁻¹
  mass_eq : ∀ a b, e'.mass.get a b = e.mass.get a b * |s| ^ 3

theorem isSimilar_similar (s : K) (Q : Mat3 K) (e : Element S K) :
    e.IsSimilar s Q (e.similar s Q) := by
  have hWeights : (e.similar s Q).points.map QuadraturePoint.weight =
      e.points.map fun q => q.weight * |s| ^ 3 := List.map_map
  constructor
  case nodes_eq => rfl
  case properties_eq => rfl
  case volume_eq => rw [volume, hWeights, List.sum_map_mul_right, volume]
  case weights_eq => exact hWeights
  case gradients_eq => exact List.map_map
  case mass_eq => exact fun a b => Dense.get_ofFn _ a b

/-! ### Jacobians -/

omit [LinearOrder K] in
/-- The Jacobian of moved vertices does not see the translation. -/
theorem jacobian_similar (s : K) (Q : Mat3 K) (c : Vec3 K)
    (X : Vector (Vec3 K) S.nodeCount) (ξ : Vec3 K) :
    fieldGradient (X.map (Vec3.similar s Q c)) (S.gradients ξ) =
      (Q * fieldGradient X (S.gradients ξ)).scale s := by
  have hMoved (a : Fin S.nodeCount) : (X.map (Vec3.similar s Q c)).get a =
      (Q.scale s).mulVec (X.get a) + c := by
    rw [vector_get_map, Vec3.similar, Mat3.scale_mulVec]
  rw [fieldGradient_affine hMoved (S.sum_gradients ξ), Mat3.scale_mul]

variable [IsStrictOrderedRing K] [OrderedScalar K] [RootedScalar K]

/-- A Jacobian that is not degenerate has a determinant that is not zero, and so an inverse. -/
theorem det_ne_zero (hEpsilon : 0 ≤ (Scalar.epsilon : K)) {J : Mat3 K}
    (h : isDegenerate J = false) : J.det ≠ 0 := by
  rw [← Bool.not_eq_true, isDegenerate_iff, not_le] at h
  have hNorm := J.norm_nonneg
  have hBound : 0 ≤ 100 * Scalar.epsilon * (J.norm * J.norm * J.norm) := by positivity
  exact abs_pos.mp (hBound.trans_lt h)

/-- Similar Jacobians are degenerate together: both sides of the comparison change by the third
power of the scale. -/
theorem isDegenerate_similar {s : K} (hs : s ≠ 0) {Q : Mat3 K} (hQ : Q.IsOrthogonal) (J : Mat3 K) :
    isDegenerate ((Q * J).scale s) = isDegenerate J := by
  have hScale : 0 < |s| ^ 3 := pow_pos (abs_pos.mpr hs) 3
  have hBound : 100 * Scalar.epsilon * (J.norm * |s| * (J.norm * |s|) * (J.norm * |s|)) =
      100 * Scalar.epsilon * (J.norm * J.norm * J.norm) * |s| ^ 3 := by ring
  rw [Bool.eq_iff_iff, isDegenerate_iff, isDegenerate_iff, hQ.abs_det_similar,
    hQ.norm_similar, hBound, mul_le_mul_iff_left₀ hScale]

/-- The identity is far from degenerate, if the spacing is small. -/
theorem isDegenerate_one (hEpsilon : 600 * (Scalar.epsilon : K) < 1)
    (hNonneg : 0 ≤ (Scalar.epsilon : K)) : isDegenerate (1 : Mat3 K) = false := by
  have hSquare : (1 : Mat3 K).norm * (1 : Mat3 K).norm = 3 := by
    rw [Mat3.norm_mul_norm, Mat3.one_def, Mat3.dot]
    norm_num
  have hNorm : (1 : Mat3 K).norm ≤ 2 := by
    by_contra hLt
    nlinarith
  rw [← Bool.not_eq_true, isDegenerate_iff, not_le, Mat3.det_one, abs_one, hSquare]
  calc 100 * Scalar.epsilon * (3 * (1 : Mat3 K).norm)
      ≤ 100 * Scalar.epsilon * (3 * 2) := by gcongr
    _ = 600 * Scalar.epsilon := by ring
    _ < 1 := hEpsilon

/-! ### Points of an element -/

section

variable {s : K} (hs : s ≠ 0) {Q : Mat3 K} (hQ : Q.IsOrthogonal) (c : Vec3 K)
  (X : Vector (Vec3 K) S.nodeCount) (w : K) (ξ : Vec3 K)

/-- A quadrature point can be made unless the Jacobian is degenerate: the inverse never fails. -/
theorem quadraturePoint_eq (hEpsilon : 0 ≤ (Scalar.epsilon : K)) : quadraturePoint X w ξ =
    if isDegenerate (fieldGradient X (S.gradients ξ)) then .error .degenerateGeometry
    else .ok
      { weight := w * |(fieldGradient X (S.gradients ξ)).det|
        gradients := (S.gradients ξ).map
          (fieldGradient X (S.gradients ξ)).inverse.transpose.mulVec } := by
  rw [quadraturePoint]
  split
  · rfl
  · next h =>
      rw [Mat3.inverse?_of_ne (det_ne_zero hEpsilon (eq_false_of_ne_true h))]
      simp only [Scalar.abs_eq]

/-- Where a quadrature point can be made, the determinant is not zero. -/
theorem det_ne_zero_of_quadraturePoint (hEpsilon : 0 ≤ (Scalar.epsilon : K))
    {q : QuadraturePoint S.nodeCount K} (h : quadraturePoint X w ξ = .ok q) :
    (fieldGradient X (S.gradients ξ)).det ≠ 0 := by
  rw [quadraturePoint_eq X w ξ hEpsilon] at h
  split at h
  · cases h
  · next hRegular => exact det_ne_zero hEpsilon (eq_false_of_ne_true hRegular)

include hs hQ

/-- Moved vertices have the quadrature points that belong to them. -/
theorem quadraturePoint_similar (hEpsilon : 0 ≤ (Scalar.epsilon : K)) :
    quadraturePoint (X.map (Vec3.similar s Q c)) w ξ =
      (quadraturePoint X w ξ).map (QuadraturePoint.similar s Q) := by
  rw [quadraturePoint_eq _ _ _ hEpsilon, quadraturePoint_eq _ _ _ hEpsilon, jacobian_similar,
    isDegenerate_similar hs hQ]
  split
  · rfl
  · next h =>
      have hDet := det_ne_zero hEpsilon (eq_false_of_ne_true h)
      -- The inverse transpose of the Jacobian turns with the vertices and shrinks where they grow.
      rw [hQ.abs_det_similar, hQ.transpose_inverse_similar hDet hs, ← mul_assoc]
      show Except.ok _ = Except.ok _
      rw [QuadraturePoint.similar]
      congr 2
      refine vector_ext_get fun a => ?_
      simp only [vector_get_map, Mat3.scale_mulVec, Mat3.mul_mulVec]

/-- The masses of moved vertices change by the third power of the scale. -/
theorem massPoint_similar (density : K) : massPoint (X.map (Vec3.similar s Q c)) density w ξ =
    (massPoint X density w ξ).map fun q => (q.1 * |s| ^ 3, q.2) := by
  rw [massPoint, massPoint, jacobian_similar, isDegenerate_similar hs hQ, Scalar.abs_eq,
    Scalar.abs_eq, hQ.abs_det_similar]
  split
  · rfl
  · show Except.ok (_, _) = Except.ok (_, _)
    rw [← mul_assoc, mul_right_comm]

/-! ### Elements -/

variable [Quadrature.Rules K]

/-- From moved vertices, the element that belongs to them is made, or the same error arises. -/
theorem ofVertices_similar (hEpsilon : 0 ≤ (Scalar.epsilon : K)) (nodes : Vector Nat S.nodeCount)
    (vertices : List (Vec3 K)) (properties : Properties K) :
    ofVertices nodes (vertices.map (Vec3.similar s Q c)) properties =
      (ofVertices nodes vertices properties).map (similar s Q) := by
  by_cases hLength : vertices.length = S.nodeCount
  · obtain ⟨X, rfl⟩ := exists_toList_eq hLength
    have hPoint (p : K × Vec3 K) := quadraturePoint_similar hs hQ c X p.1 p.2 hEpsilon
    have hMass (p : K × Vec3 K) := massPoint_similar hs hQ c X p.1 p.2 properties.density
    rw [← Vector.toList_map, ofVertices_toList nodes (X.map _), ofVertices_toList nodes X,
      mapM_eq_map_mapM hPoint, mapM_eq_map_mapM hMass]
    cases S.stiffnessRule.nodes.mapM fun p => quadraturePoint X p.1 p.2 with
    | error error => rfl
    | ok points =>
        cases S.massRule.nodes.mapM fun p => massPoint X properties.density p.1 p.2 with
        | error error => rfl
        | ok masses =>
            show Except.ok _ = Except.ok _
            rw [similar, massOf_scale]
  · have hMoved : (vertices.map (Vec3.similar s Q c)).length ≠ S.nodeCount := by
      rwa [List.length_map]
    rw [ofVertices_of_length_ne nodes hLength, ofVertices_of_length_ne nodes hMoved,
      List.length_map]
    rfl

/-- Acceptance of geometry depends neither on the unit of length nor on the placement, and neither
does the shape of an accepted element. Its Jacobians have determinants that are not zero, so that it
is never the inverse that fails. -/
theorem geometry_similar (hEpsilon : 0 ≤ (Scalar.epsilon : K)) (nodes : Vector Nat S.nodeCount)
    (vertices : List (Vec3 K)) (properties : Properties K) :
    ((∃ e' : Element S K,
        ofVertices nodes (vertices.map (Vec3.similar s Q c)) properties = .ok e') ↔
      ∃ e : Element S K, ofVertices nodes vertices properties = .ok e) ∧
    (∀ e e' : Element S K, ofVertices nodes vertices properties = .ok e →
      ofVertices nodes (vertices.map (Vec3.similar s Q c)) properties = .ok e' →
      e.IsSimilar s Q e') ∧
    (∀ (X : Vector (Vec3 K) S.nodeCount) (e : Element S K), X.toList = vertices →
      ofVertices nodes vertices properties = .ok e →
      ∀ p ∈ S.stiffnessRule.nodes, (fieldGradient X (S.gradients p.2)).det ≠ 0) ∧
    ∀ J : Mat3 K, isDegenerate J = false → ∃ B, J.inverse? = some B := by
  have hSimilar := ofVertices_similar hs hQ c hEpsilon nodes vertices properties
  refine ⟨?_, ?_, ?_, ?_⟩
  · rw [hSimilar]
    cases ofVertices nodes vertices properties with
    | error error => simp [Except.map]
    | ok e => simp [Except.map]
  · intro e e' h h'
    rw [hSimilar, h] at h'
    cases h'
    exact e.isSimilar_similar s Q
  · rintro X e rfl h p hp
    obtain ⟨X', hVertices, points, hPoints, -⟩ := ofVertices_eq_ok_iff.mp h
    cases Vector.toList_inj.mp hVertices
    obtain ⟨q, -, hPoint⟩ := exists_of_mapM_eq_ok hPoints hp
    exact det_ne_zero_of_quadraturePoint X p.1 p.2 hEpsilon hPoint
  · exact fun J h => ⟨_, Mat3.inverse?_of_ne (det_ne_zero hEpsilon h)⟩

end

/-- A tetrahedron and its mirror image of twice the size, at another place. -/
theorem geometry_similar_mirrored :
    let vertices : List (Vec3 SpacedReal) := [⟨0, 0, 0⟩, ⟨2, 0, 0⟩, ⟨0, 2, 0⟩, ⟨0, 0, 2⟩]
    let mirror : Mat3 SpacedReal := ⟨0, 1, 0, 1, 0, 0, 0, 0, 1⟩
    let properties : Properties SpacedReal :=
      { law := .neoHookean, lame := ⟨1, 2⟩, density := 5, damping := .none, lumping := .rowSum }
    ∃ e e' : Element .tet4 SpacedReal,
      ofVertices #v[0, 1, 2, 3] vertices properties = .ok e ∧
      ofVertices #v[0, 1, 2, 3] (vertices.map (Vec3.similar (-2) mirror ⟨1, 2, 3⟩)) properties =
        .ok e' ∧
      mirror.det = -1 ∧ e.IsSimilar (-2) mirror e' ∧ e'.volume = e.volume * 8 := by
  intro vertices mirror properties
  have hJacobian (ξ : Vec3 SpacedReal) : fieldGradient (n := 4)
      #v[⟨0, 0, 0⟩, ⟨2, 0, 0⟩, ⟨0, 2, 0⟩, ⟨0, 0, 2⟩] (Shape.gradients .tet4 ξ) = 1 := by
    rw [fieldGradient_tet4]
    ext <;> simp [Mat3.ofColumns, Mat3.scale, Vec3.sub_def, Mat3.one_def, Scalar.half_eq]
  have hEpsilon : 0 ≤ (Scalar.epsilon : SpacedReal) := by
    rw [SpacedReal.epsilon_eq]
    positivity
  have hRegular : isDegenerate (1 : Mat3 SpacedReal) = false :=
    isDegenerate_one (by rw [SpacedReal.epsilon_eq]; norm_num) hEpsilon
  obtain ⟨e, h⟩ := exists_ofVertices (S := .tet4) #v[0, 1, 2, 3] properties
    (fun ξ => (hJacobian ξ).symm ▸ by simp) (fun ξ => (hJacobian ξ).symm ▸ hRegular)
  have hScale : (-2 : SpacedReal) ≠ 0 := by norm_num
  have hMirror : mirror.IsOrthogonal := by
    ext <;> simp [mirror, Mat3.mul_def, Mat3.transpose, Mat3.one_def]
  obtain ⟨hAccepted, hSimilar, -⟩ := geometry_similar hScale hMirror ⟨1, 2, 3⟩ hEpsilon
    (S := .tet4) #v[0, 1, 2, 3] vertices properties
  obtain ⟨e', h'⟩ := hAccepted.mpr ⟨e, h⟩
  refine ⟨e, e', h, h', ?_, hSimilar e e' h h', ?_⟩
  · simp [mirror, Mat3.det]
  · rw [(hSimilar e e' h h').volume_eq]
    norm_num

end Element

end Elastodynamics
