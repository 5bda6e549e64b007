import Mathlib.Tactic.LinearCombination
import Elastodynamics.Proofs.Element.Mass
/-!
Interpolation on the reference shapes. The basis of a shape reproduces the affine functions on the
tetrahedron, and on the cube the functions that are affine in each coordinate; no point is left out,
inside of the shape or not. Its gradients are exact for steps of any length along an axis. From both
follow the sums of values and of gradients, with and without the vertices.
-/
namespace Elastodynamics

variable {K : Type} [ExactScalar K]

/-! ### Steps along an axis -/

namespace Vec3

/-- The point that is reached from `p` by a step of length `h` along an axis. -/
def step (p : Vec3 K) (i : Fin 3) (h : K) : Vec3 K := p + (unit i).scale h

theorem get_step (p : Vec3 K) (i : Fin 3) (h : K) (j : Fin 3) :
    (p.step i h).get j = p.get j + if j = i then h else 0 := by
  rw [step, get_add, get_scale, unit, get_ofFn, ite_mul, one_mul, zero_mul]

theorem step_x (p : Vec3 K) (h : K) : p.step 0 h = ⟨p.x + h, p.y, p.z⟩ := by
  refine ext_get fun j => ?_
  rw [get_step]
  match j with
  | 0 => rfl
  | 1 => exact add_zero p.y
  | 2 => exact add_zero p.z

theorem step_y (p : Vec3 K) (h : K) : p.step 1 h = ⟨p.x, p.y + h, p.z⟩ := by
  refine ext_get fun j => ?_
  rw [get_step]
  match j with
  | 0 => exact add_zero p.x
  | 1 => rfl
  | 2 => exact add_zero p.z

theorem step_z (p : Vec3 K) (h : K) : p.step 2 h = ⟨p.x, p.y, p.z + h⟩ := by
  refine ext_get fun j => ?_
  rw [get_step]
  match j with
  | 0 => exact add_zero p.x
  | 1 => exact add_zero p.y
  | 2 => rfl

end Vec3

/-- Whether a function is affine on every line along an axis. -/
def AffineAlong (i : Fin 3) (f : Vec3 K → K) : Prop :=
  ∀ p, ∃ slope, ∀ h, f (p.step i h) = f p + h * slope

namespace Shape

/-- The functions that a shape can interpolate: affine ones on the tetrahedron, and on the cube
those that are affine in each coordinate, which are the trilinear ones. -/
def Space : Shape → (Vec3 K → K) → Prop
  | tet4, f => ∃ (c : K) (g : Vec3 K), ∀ p, f p = c + g.dot p
  | hex8, f => ∀ i, AffineAlong i f

theorem hat_eq (s x : K) : hat s x = Scalar.half * (1 + s * x) := by
  rw [hat, Scalar.half, div_mul_eq_mul_div, one_mul]

/-- On a line along an axis, a function that is affine there is known from its values at the two
points whose coordinate is a sign. -/
theorem eq_hat_of_affineAlong {i : Fin 3} {f : Vec3 K → K} (hf : AffineAlong i f) (p : Vec3 K) :
    f p = hat 1 (p.get i) * f (p.step i (1 - p.get i)) +
      hat (-1) (p.get i) * f (p.step i (-1 - p.get i)) := by
  obtain ⟨slope, hSlope⟩ := hf p
  rw [hSlope, hSlope, hat_eq, hat_eq]
  linear_combination (-f p) * Scalar.half_add_half (K := K)

/-! ### Values -/

/-- Interpolation of the values at the vertices gives the function back. -/
theorem interpolate {S : Shape} {f : Vec3 K → K} (hf : S.Space f) (ξ : Vec3 K) :
    ∑ a, f (S.vertices.get a) * (S.basis ξ).get a = f ξ := by
  cases S with
  | tet4 =>
      obtain ⟨c, g, hf⟩ := hf
      let half : K := Scalar.half
      calc ∑ a, f (vertices tet4 |>.get a) * (basis tet4 ξ).get a
          = f ⟨-1, -1, -1⟩ * (-half * ξ.x - half * ξ.y - half * ξ.z - half)
              + f ⟨1, -1, -1⟩ * (half * ξ.x + half) + f ⟨-1, 1, -1⟩ * (half * ξ.y + half)
              + f ⟨-1, -1, 1⟩ * (half * ξ.z + half) := Fin.sum_univ_four _
        _ = (half + half) * f ξ := by
            simp only [hf, Vec3.dot]
            ring
        _ = f ξ := by rw [Scalar.half_add_half, one_mul]
  | hex8 =>
      let value (s : Vec3 K) : K := hat s.x ξ.x * hat s.y ξ.y * hat s.z ξ.z
      have hx (x y z : K) : f ⟨x, y, z⟩ =
          hat 1 x * f ⟨1, y, z⟩ + hat (-1) x * f ⟨-1, y, z⟩ := by
        simpa [Vec3.step_x, Vec3.get] using eq_hat_of_affineAlong (hf 0) ⟨x, y, z⟩
      have hy (x y z : K) : f ⟨x, y, z⟩ =
          hat 1 y * f ⟨x, 1, z⟩ + hat (-1) y * f ⟨x, -1, z⟩ := by
        simpa [Vec3.step_y, Vec3.get] using eq_hat_of_affineAlong (hf 1) ⟨x, y, z⟩
      have hz (x y z : K) : f ⟨x, y, z⟩ =
          hat 1 z * f ⟨x, y, 1⟩ + hat (-1) z * f ⟨x, y, -1⟩ := by
        simpa [Vec3.step_z, Vec3.get] using eq_hat_of_affineAlong (hf 2) ⟨x, y, z⟩
      calc ∑ a, f (vertices hex8 |>.get a) * (basis hex8 ξ).get a
          = ∑ a, f (cubeSigns.get a) * value (cubeSigns.get a) :=
            Finset.sum_congr rfl fun a _ =>
              congrArg (f (cubeSigns.get a) * ·) (vector_get_map value cubeSigns a)
        _ = f ⟨ξ.x, ξ.y, ξ.z⟩ := by
            rw [sum_cubeSigns fun s => f s * value s, hx ξ.x, hy 1 ξ.y, hy (-1) ξ.y, hz 1 1 ξ.z,
              hz 1 (-1) ξ.z, hz (-1) 1 ξ.z, hz (-1) (-1) ξ.z]
            ring

/-- The coordinates can be interpolated. -/
theorem space_get (S : Shape) (j : Fin 3) : S.Space fun p : Vec3 K => p.get j := by
  cases S with
  | tet4 =>
      refine ⟨0, .unit j, fun p => ?_⟩
      match j with
      | 0 | 1 | 2 => simp [Vec3.dot, Vec3.unit, Vec3.ofFn, Vec3.get]
  | hex8 =>
      refine fun i p => ⟨if j = i then 1 else 0, fun h => ?_⟩
      show (p.step i h).get j = p.get j + h * if j = i then 1 else 0
      rw [Vec3.get_step, mul_ite, mul_one, mul_zero]

/-- Polynomials of degree at most one in each coordinate can be interpolated on the cube. -/
theorem space_trilinear (c : Fin 8 → K) : hex8.Space fun p => c 0 + c 1 * p.x + c 2 * p.y
    + c 3 * p.z + c 4 * p.x * p.y + c 5 * p.y * p.z + c 6 * p.z * p.x + c 7 * p.x * p.y * p.z := by
  intro i p
  match i with
  | 0 =>
    refine ⟨c 1 + c 4 * p.y + c 6 * p.z + c 7 * p.y * p.z, fun h => ?_⟩
    rw [Vec3.step_x]
    ring
  | 1 =>
    refine ⟨c 2 + c 4 * p.x + c 5 * p.z + c 7 * p.x * p.z, fun h => ?_⟩
    rw [Vec3.step_y]
    ring
  | 2 =>
    refine ⟨c 3 + c 5 * p.y + c 6 * p.x + c 7 * p.x * p.y, fun h => ?_⟩
    rw [Vec3.step_z]
    ring

/-- The basis functions place the vertices at every point. -/
theorem sum_vertices_scale_basis (S : Shape) (ξ : Vec3 K) :
    ∑ a, (S.vertices.get a).scale ((S.basis ξ).get a) = ξ := by
  refine Vec3.ext_get fun j => ?_
  simp only [Vec3.get_sum, Vec3.get_scale]
  exact interpolate (S.space_get j) ξ

/-! ### Gradients -/

/-- A basis function is affine along each axis, and its gradient is its slope. -/
theorem basis_step_sub (S : Shape) (ξ : Vec3 K) (a : Fin S.nodeCount) (i : Fin 3) (h : K) :
    (S.basis (ξ.step i h)).get a - (S.basis ξ).get a = h * ((S.gradients ξ).get a).get i := by
  cases S with
  | tet4 =>
      fin_cases i
      all_goals
        simp only [Fin.zero_eta, Fin.mk_one, Fin.reduceFinMk, Vec3.step_x, Vec3.step_y,
          Vec3.step_z]
        fin_cases a <;> simp [basis, gradients, Vector.get, Vec3.get] <;> ring
  | hex8 =>
      let value (s p : Vec3 K) : K := hat s.x p.x * hat s.y p.y * hat s.z p.z
      let gradient (s : Vec3 K) : Vec3 K :=
        ⟨hatSlope s.x * hat s.y ξ.y * hat s.z ξ.z, hat s.x ξ.x * hatSlope s.y * hat s.z ξ.z,
          hat s.x ξ.x * hat s.y ξ.y * hatSlope s.z⟩
      have hBasis (p : Vec3 K) : (basis hex8 p).get a = value (cubeSigns.get a) p :=
        vector_get_map (fun s => value s p) cubeSigns a
      have hGradient : (gradients hex8 ξ).get a = gradient (cubeSigns.get a) :=
        vector_get_map gradient cubeSigns a
      rw [hBasis, hBasis, hGradient]
      fin_cases i
      · simp only [Fin.zero_eta, Vec3.step_x, value, gradient, Vec3.get, hatSlope, hat]
        ring
      · simp only [Fin.mk_one, Vec3.step_y, value, gradient, Vec3.get, hatSlope, hat]
        ring
      · simp only [Fin.reduceFinMk, Vec3.step_z, value, gradient, Vec3.get, hatSlope, hat]
        ring

/-- The vertices have the identity as their gradient. -/
theorem sum_outer_vertices_gradients (S : Shape) (ξ : Vec3 K) :
    ∑ a, Mat3.outer (S.vertices.get a) ((S.gradients ξ).get a) = 1 := by
  refine Mat3.ext_get fun p q => ?_
  have hSlope (a : Fin S.nodeCount) :
      (S.vertices.get a).get p * ((S.gradients ξ).get a).get q =
        (S.vertices.get a).get p * (S.basis (ξ.step q 1)).get a -
          (S.vertices.get a).get p * (S.basis ξ).get a := by
    rw [← mul_sub, basis_step_sub, one_mul]
  calc (∑ a, Mat3.outer (S.vertices.get a) ((S.gradients ξ).get a)).get p q
      = ∑ a, (S.vertices.get a).get p * ((S.gradients ξ).get a).get q := by
        simp only [Mat3.get_sum, Mat3.get_outer]
    _ = (ξ.step q 1).get p - ξ.get p := by
        rw [Finset.sum_congr rfl fun a _ => hSlope a, Finset.sum_sub_distrib,
          interpolate (S.space_get p), interpolate (S.space_get p)]
    _ = (1 : Mat3 K).get p q := by
        rw [Vec3.get_step, add_sub_cancel_left, Mat3.get_one]

/-- The basis of a shape is exact at every point, also outside of the shape: the values add up to
one and place the vertices at the point, the gradients add up to zero and give the vertices the
identity as their gradient, a step of any length along an axis changes a basis function by its
length times the component of the gradient, and the values of every function that the shape can
interpolate give the function back. -/
theorem shape_functions_exact (S : Shape) (ξ : Vec3 K) :
    ∑ a, (S.basis ξ).get a = 1 ∧
    ∑ a, (S.vertices.get a).scale ((S.basis ξ).get a) = ξ ∧
    ∑ a, (S.gradients ξ).get a = 0 ∧
    ∑ a, Mat3.outer (S.vertices.get a) ((S.gradients ξ).get a) = 1 ∧
    (∀ a i h, (S.basis (ξ.step i h)).get a - (S.basis ξ).get a =
      h * ((S.gradients ξ).get a).get i) ∧
    ∀ f, S.Space f → ∑ a, f (S.vertices.get a) * (S.basis ξ).get a = f ξ :=
  ⟨S.sum_basis ξ, S.sum_vertices_scale_basis ξ, S.sum_gradients ξ, S.sum_outer_vertices_gradients ξ,
    S.basis_step_sub ξ, fun _ hf => interpolate hf ξ⟩

/-- The product of the coordinates is interpolated at a point outside of the cube. -/
theorem shape_functions_exact_outside :
    let f : Vec3 ℚ → ℚ := fun p => p.x * p.y * p.z
    hex8.Space f ∧ ∑ a, f (hex8.vertices.get a) * (hex8.basis ⟨3, 1 / 2, -2⟩).get a = -3 := by
  intro f
  have hSpace : hex8.Space f := by
    simpa using space_trilinear (K := ℚ) ![0, 0, 0, 0, 0, 0, 0, 1]
  obtain ⟨_, _, _, _, _, hInterpolate⟩ := shape_functions_exact hex8 (⟨3, 1 / 2, -2⟩ : Vec3 ℚ)
  refine ⟨hSpace, (hInterpolate f hSpace).trans ?_⟩
  norm_num [f]

end Shape

end Elastodynamics
