import Mathlib.Algebra.BigOperators.Fin
import Elastodynamics.Proofs.Element.Reference
/-!
Affine maps of the nodes of an element. The gradients of the basis functions add up to zero at every
point, so a translation deforms nothing, and a linear map of the nodes multiplies every deformation
gradient from the left.
-/
namespace Elastodynamics

variable {K : Type} [ExactScalar K] {S : Shape}

namespace Mat3

theorem mulVec_sum {ι : Type} (A : Mat3 K) (s : Finset ι) (f : ι → Vec3 K) :
    A.mulVec (∑ i ∈ s, f i) = ∑ i ∈ s, A.mulVec (f i) :=
  map_sum (⟨⟨A.mulVec, mulVec_zero A⟩, mulVec_add A⟩ : Vec3 K →+ Vec3 K) f s

theorem mulVec_list_sum (A : Mat3 K) (l : List (Vec3 K)) :
    A.mulVec l.sum = (l.map A.mulVec).sum :=
  map_list_sum (⟨⟨A.mulVec, mulVec_zero A⟩, mulVec_add A⟩ : Vec3 K →+ Vec3 K) l

variable (u v w : Vec3 K)

theorem outer_zero : outer u 0 = 0 := by
  apply ext_get
  intro p q
  rw [get_outer, Vec3.get_zero, mul_zero, get_zero]

theorem outer_add : outer u (v + w) = outer u v + outer u w := by
  apply ext_get
  intro p q
  rw [get_outer, get_add, get_outer, get_outer, Vec3.get_add, mul_add]

theorem outer_sum {ι : Type} (s : Finset ι) (f : ι → Vec3 K) :
    outer u (∑ i ∈ s, f i) = ∑ i ∈ s, outer u (f i) :=
  map_sum (⟨⟨outer u, outer_zero u⟩, outer_add u⟩ : Vec3 K →+ Mat3 K) f s

theorem outer_list_sum (l : List (Vec3 K)) : outer u l.sum = (l.map (outer u)).sum :=
  map_list_sum (⟨⟨outer u, outer_zero u⟩, outer_add u⟩ : Vec3 K →+ Mat3 K) l

theorem outer_scale (s : K) : outer u (v.scale s) = (outer u v).scale s := by
  apply ext_get
  intro p q
  rw [get_outer, get_scale, get_outer, Vec3.get_scale, mul_assoc]

end Mat3

/-! ### Sums of gradients -/

namespace Shape

/-- A sum over the vertices of the cube. -/
theorem sum_cubeSigns {β : Type} [AddCommMonoid β] (f : Vec3 K → β) :
    ∑ a, f (cubeSigns.get a) = f ⟨-1, -1, -1⟩ + f ⟨1, -1, -1⟩ + f ⟨1, 1, -1⟩ + f ⟨-1, 1, -1⟩ +
      f ⟨-1, -1, 1⟩ + f ⟨1, -1, 1⟩ + f ⟨1, 1, 1⟩ + f ⟨-1, 1, 1⟩ :=
  Fin.sum_univ_eight _

/-- Basis functions add up to one at every point, and so their gradients add up to zero. -/
theorem sum_gradients (S : Shape) (ξ : Vec3 K) : ∑ a, (S.gradients ξ).get a = 0 := by
  cases S with
  | tet4 =>
      calc ∑ a, (gradients tet4 ξ).get a
          = ⟨-Scalar.half, -Scalar.half, -Scalar.half⟩ + ⟨Scalar.half, 0, 0⟩ +
              ⟨0, Scalar.half, 0⟩ + ⟨0, 0, Scalar.half⟩ := Fin.sum_univ_four _
        _ = 0 := by
            apply Vec3.ext_get
            intro p
            simp only [Vec3.get_add, Vec3.get_zero]
            match p with
            | 0 | 1 | 2 => simp [Vec3.get]
  | hex8 =>
      let gradient (s : Vec3 K) : Vec3 K :=
        ⟨hatSlope s.x * hat s.y ξ.y * hat s.z ξ.z, hat s.x ξ.x * hatSlope s.y * hat s.z ξ.z,
          hat s.x ξ.x * hat s.y ξ.y * hatSlope s.z⟩
      calc ∑ a, (gradients hex8 ξ).get a
          = ∑ a, gradient (cubeSigns.get a) :=
            Finset.sum_congr rfl fun a _ => vector_get_map gradient cubeSigns a
        _ = 0 := by
            rw [sum_cubeSigns]
            apply Vec3.ext_get
            intro p
            simp only [Vec3.get_add, Vec3.get_zero]
            match p with
            | 0 | 1 | 2 =>
              simp only [gradient, Vec3.get, hatSlope, hat]
              ring

end Shape

/-! ### Tetrahedra -/

/-- The matrix with the given columns. -/
def Mat3.ofColumns (u v w : Vec3 K) : Mat3 K := ⟨u.x, v.x, w.x, u.y, v.y, w.y, u.z, v.z, w.z⟩

/-- The Jacobian of a tetrahedron is half of the matrix of its edges. -/
theorem fieldGradient_tet4 (X₀ X₁ X₂ X₃ ξ : Vec3 K) :
    fieldGradient #v[X₀, X₁, X₂, X₃] (Shape.gradients .tet4 ξ) =
      (Mat3.ofColumns (X₁ - X₀) (X₂ - X₀) (X₃ - X₀)).scale Scalar.half := by
  let half : K := Scalar.half
  calc fieldGradient #v[X₀, X₁, X₂, X₃] (Shape.gradients .tet4 ξ)
      = Mat3.outer X₀ ⟨-half, -half, -half⟩ + Mat3.outer X₁ ⟨half, 0, 0⟩
          + Mat3.outer X₂ ⟨0, half, 0⟩ + Mat3.outer X₃ ⟨0, 0, half⟩ := by
        rw [fieldGradient, ← Fin.sum_univ_def]
        exact Fin.sum_univ_four _
    _ = (Mat3.ofColumns (X₁ - X₀) (X₂ - X₀) (X₃ - X₀)).scale half := by
        ext <;> simp only [Mat3.add_def, Mat3.outer, Mat3.ofColumns, Mat3.scale, Vec3.sub_def] <;>
          ring

/-! ### Deformation gradients -/

/-- The gradient of a field that arises from another one by a linear map and a translation. -/
theorem fieldGradient_affine {n : Nat} {x X gradients : Vector (Vec3 K) n} {A : Mat3 K}
    {c : Vec3 K} (hx : ∀ a, x.get a = A.mulVec (X.get a) + c)
    (hSum : ∑ a, gradients.get a = 0) :
    fieldGradient x gradients = A * fieldGradient X gradients := by
  have hTranslation : ∑ a, Mat3.outer c (gradients.get a) = 0 := by
    rw [← Mat3.outer_sum, hSum, Mat3.outer_zero]
  simp only [fieldGradient, ← Fin.sum_univ_def, hx, Mat3.add_outer, Finset.sum_add_distrib,
    hTranslation, add_zero, ← Mat3.mul_outer, Finset.mul_sum]

namespace Element

variable {e : Element S K}

/-- The Jacobian carries the gradients over to reference positions, where they still add up to
zero. -/
theorem sum_gradients_of_quadraturePoint {X : Vector (Vec3 K) S.nodeCount} {w : K} {ξ : Vec3 K}
    {q : QuadraturePoint S.nodeCount K} (h : quadraturePoint X w ξ = .ok q) :
    ∑ a, q.gradients.get a = 0 := by
  obtain ⟨B, _, rfl⟩ := quadraturePoint_eq_ok h
  simp only [vector_get_map]
  rw [← Mat3.mulVec_sum, Shape.sum_gradients, Mat3.mulVec_zero]

variable [Quadrature.Rules K]

theorem Constructed.sum_gradients (h : e.Constructed) {q : QuadraturePoint S.nodeCount K}
    (hq : q ∈ e.points) : ∑ a, q.gradients.get a = 0 := by
  obtain ⟨_, _, _, hMade⟩ := h
  obtain ⟨_, _, _, _, _, hParts⟩ := ofVertices_eq_ok hMade
  obtain ⟨_, _, hPoint⟩ := hParts.exists_quadraturePoint q hq
  exact sum_gradients_of_quadraturePoint hPoint

/-- An affine map of the nodes multiplies the deformation gradients of an element. -/
theorem Constructed.deformation_affine (h : e.Constructed) {x X : Vector (Vec3 K) S.nodeCount}
    {A : Mat3 K} {c : Vec3 K} (hx : ∀ a, x.get a = A.mulVec (X.get a) + c)
    {q : QuadraturePoint S.nodeCount K} (hq : q ∈ e.points) :
    deformation x q = A * deformation X q :=
  fieldGradient_affine hx (h.sum_gradients hq)

end Element

end Elastodynamics
