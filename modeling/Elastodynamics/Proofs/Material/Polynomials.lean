import Mathlib.Algebra.Polynomial.FieldDivision
import Mathlib.FieldTheory.IsAlgClosed.AlgebraicClosure
import Elastodynamics.Proofs.Material.Derivatives
/-!
Material laws over polynomials. The energy density and the stress of linear elasticity and of the
Saint Venant-Kirchhoff law are computed from sums, products and the half only, so they can be
computed with polynomials in a time `t` instead of scalars, and any map that respects these
operations goes through the computation. Along a line the result is one polynomial for all times, in
every field that extends the scalars, and its coefficient of degree one is the derivative.
-/
namespace Elastodynamics

/-! ### Maps between scalar types -/

/-- A map that respects sums, differences, products and the half. -/
structure Scalar.Hom (α β : Type) [Scalar α] [Scalar β] where
  toFun : α → β
  map_zero : toFun 0 = 0
  map_one : toFun 1 = 1
  map_add : ∀ x y, toFun (x + y) = toFun x + toFun y
  map_sub : ∀ x y, toFun (x - y) = toFun x - toFun y
  map_mul : ∀ x y, toFun (x * y) = toFun x * toFun y
  map_half : toFun Scalar.half = Scalar.half

def Vec3.map {α β : Type} (f : α → β) (v : Vec3 α) : Vec3 β := ⟨f v.x, f v.y, f v.z⟩

def Mat3.map {α β : Type} (f : α → β) (A : Mat3 α) : Mat3 β :=
  ⟨f A.xx, f A.xy, f A.xz, f A.yx, f A.yy, f A.yz, f A.zx, f A.zy, f A.zz⟩

def Lame.map {α β : Type} (f : α → β) (p : Lame α) : Lame β := ⟨f p.mu, f p.lambda⟩

variable {α β : Type} [Scalar α] [Scalar β] (φ : Scalar.Hom α β)

namespace Scalar.Hom

theorem map_ofNat (n : Nat) : φ.toFun (Scalar.ofNat n) = Scalar.ofNat n := by
  induction n with
  | zero => exact φ.map_zero
  | succ n ih => rw [Scalar.ofNat, φ.map_add, ih, φ.map_one, Scalar.ofNat]

/-- The sum of three products, which is what the entries of all products are. -/
theorem map_products (a b c d e f : α) : φ.toFun (a * b + c * d + e * f) =
    φ.toFun a * φ.toFun b + φ.toFun c * φ.toFun d + φ.toFun e * φ.toFun f := by
  simp only [φ.map_add, φ.map_mul]

end Scalar.Hom

theorem Vec3.map_dot (u v : Vec3 α) :
    φ.toFun (u.dot v) = (u.map φ.toFun).dot (v.map φ.toFun) := φ.map_products _ _ _ _ _ _

theorem Vec3.get_map {α β : Type} (f : α → β) (v : Vec3 α) (i : Fin 3) :
    (v.map f).get i = f (v.get i) := by
  match i with
  | 0 | 1 | 2 => rfl

namespace Mat3

variable (A B : Mat3 α) (s : α)

theorem map_one : (1 : Mat3 α).map φ.toFun = 1 := by
  ext <;> first | exact φ.map_one | exact φ.map_zero

theorem map_diagonal : (diagonal s).map φ.toFun = diagonal (φ.toFun s) := by
  ext <;> first | rfl | exact φ.map_zero

theorem map_add : (A + B).map φ.toFun = A.map φ.toFun + B.map φ.toFun := by
  ext <;> exact φ.map_add _ _

theorem map_sub : (A - B).map φ.toFun = A.map φ.toFun - B.map φ.toFun := by
  ext <;> exact φ.map_sub _ _

theorem map_scale : (A.scale s).map φ.toFun = (A.map φ.toFun).scale (φ.toFun s) := by
  ext <;> exact φ.map_mul _ _

theorem map_mul : (A * B).map φ.toFun = A.map φ.toFun * B.map φ.toFun := by
  ext <;> exact φ.map_products _ _ _ _ _ _

omit [Scalar α] [Scalar β] in
theorem map_transpose (f : α → β) : A.transpose.map f = (A.map f).transpose := rfl

theorem map_symmetricPart : A.symmetricPart.map φ.toFun = (A.map φ.toFun).symmetricPart := by
  rw [symmetricPart, map_scale, map_add, φ.map_half, map_transpose]
  rfl

theorem map_outer (u v : Vec3 α) :
    (outer u v).map φ.toFun = outer (u.map φ.toFun) (v.map φ.toFun) := by
  ext <;> exact φ.map_mul _ _

theorem map_mulVec (v : Vec3 α) :
    (A.mulVec v).map φ.toFun = (A.map φ.toFun).mulVec (v.map φ.toFun) := by
  ext <;> exact φ.map_products _ _ _ _ _ _

theorem map_trace : φ.toFun A.trace = (A.map φ.toFun).trace := by
  rw [trace, φ.map_add, φ.map_add]
  rfl

theorem map_dot : φ.toFun (A.dot B) = (A.map φ.toFun).dot (B.map φ.toFun) := by
  rw [dot, φ.map_add, φ.map_add, φ.map_products, φ.map_products, φ.map_products]
  rfl

theorem get_map {α β : Type} (f : α → β) (A : Mat3 α) (i j : Fin 3) :
    (A.map f).get i j = f (A.get i j) := by
  match i, j with
  | 0, 0 | 0, 1 | 0, 2 | 1, 0 | 1, 1 | 1, 2 | 2, 0 | 2, 1 | 2, 2 => rfl

end Mat3

/-! ### Laws -/

variable (p : Lame α) (F : Mat3 α)

theorem LinearElastic.strain_map : strain (F.map φ.toFun) = (strain F).map φ.toFun := by
  rw [strain, strain, Mat3.map_sub, Mat3.map_symmetricPart, Mat3.map_one]

theorem StVK.strain_map : strain (F.map φ.toFun) = (strain F).map φ.toFun := by
  rw [strain, strain, Mat3.map_scale, Mat3.map_sub, Mat3.map_mul, Mat3.map_transpose,
    Mat3.map_one, φ.map_half]

/-- Laws that need no logarithm and no inverse commute with every map between scalar types. -/
theorem Law.energy_map {law : Law} (hLaw : law ≠ neoHookean) :
    law.energy (p.map φ.toFun) (F.map φ.toFun) = φ.toFun (law.energy p F) := by
  cases law with
  | linearElastic =>
      simp only [energy, LinearElastic.energy, LinearElastic.strain_map, Lame.map, ← Mat3.map_dot,
        ← Mat3.map_trace, ← φ.map_half, ← φ.map_mul, ← φ.map_add]
  | neoHookean => exact absurd rfl hLaw
  | stVK =>
      simp only [energy, StVK.energy, StVK.strain_map, Lame.map, ← Mat3.map_dot,
        ← Mat3.map_trace, ← φ.map_half, ← φ.map_mul, ← φ.map_add]

theorem Law.stress_map {law : Law} (hLaw : law ≠ neoHookean) :
    law.stress (p.map φ.toFun) (F.map φ.toFun) = (law.stress p F).map φ.toFun := by
  cases law with
  | linearElastic =>
      simp only [stress, LinearElastic.stress, LinearElastic.strain_map, Lame.map, Mat3.map_add,
        Mat3.map_scale, Mat3.map_diagonal, φ.map_ofNat, φ.map_mul, Mat3.map_trace]
  | neoHookean => exact absurd rfl hLaw
  | stVK =>
      simp only [stress, StVK.stress, StVK.strain_map, Lame.map, Mat3.map_add, Mat3.map_mul,
        Mat3.map_scale, φ.map_ofNat, Mat3.map_trace]

theorem Law.contraction_map {law : Law} (hLaw : law ≠ neoHookean) (a b : Vec3 α) :
    law.contraction (p.map φ.toFun) (F.map φ.toFun) (a.map φ.toFun) (b.map φ.toFun) =
      (law.contraction p F a b).map φ.toFun := by
  cases law with
  | linearElastic =>
      simp only [contraction, LinearElastic.contraction, Lame.map, Mat3.map_add, Mat3.map_scale,
        Mat3.map_outer, Mat3.map_one, Vec3.map_dot]
  | neoHookean => exact absurd rfl hLaw
  | stVK =>
      simp only [contraction, StVK.contraction, StVK.strain_map, Lame.map, Mat3.map_add,
        Mat3.map_mul, Mat3.map_scale, Mat3.map_diagonal, Mat3.map_outer, Mat3.map_mulVec,
        Mat3.map_transpose, φ.map_add, φ.map_mul, φ.map_ofNat, Vec3.map_dot, Mat3.map_trace]

/-! ### Polynomials as scalars -/

section Polynomials

variable {K L : Type} [ExactScalar K] [ExactScalar L]

/-- What is its own other half is the half. -/
theorem Scalar.eq_half {x : K} (h : x + x = 1) : x = half := by
  have hTwo : (2 : K) ≠ 0 := one_add_one_eq_two (R := K) ▸ ExactScalar.one_add_one_ne_zero
  rw [half_eq, eq_div_iff hTwo, mul_two, h]

/-- Homomorphisms of fields respect the half. -/
def Scalar.Hom.ofRingHom (ι : K →+* L) : Scalar.Hom K L where
  toFun := ι
  map_zero := ι.map_zero
  map_one := ι.map_one
  map_add := ι.map_add
  map_sub := ι.map_sub
  map_mul := ι.map_mul
  map_half := Scalar.eq_half <| by rw [← ι.map_add, Scalar.half_add_half, ι.map_one]

theorem Vec3.map_unit (φ : Scalar.Hom K L) (j : Fin 3) : (unit j).map φ.toFun = unit j := by
  refine Vec3.ext_get fun i => ?_
  rw [get_map, unit, unit, get_ofFn, get_ofFn]
  split
  · exact φ.map_one
  · exact φ.map_zero

open scoped Classical in
/-- Every exact field has an infinite extension that is exact as well. -/
theorem exists_infinite_extension (K : Type) [ExactScalar K] :
    ∃ (L : Type) (_ : ExactScalar L) (_ : K →+* L), Infinite L := by
  have hTwo : (1 + 1 : AlgebraicClosure K) ≠ 0 := by
    rw [← map_one (algebraMap K (AlgebraicClosure K)), ← map_add, map_ne_zero]
    exact ExactScalar.one_add_one_ne_zero
  -- the operations beyond field arithmetic may be any, except for the zero test
  exact ⟨AlgebraicClosure K,
    { sqrt := id
      log := id
      isFinite := fun _ => true
      isZero := fun x => decide (x = 0)
      le := fun _ _ => true
      epsilon := 0
      one_add_one_ne_zero := hTwo
      isZero_iff := fun x => decide_eq_true_iff },
    algebraMap K (AlgebraicClosure K), inferInstance⟩

/-- A polynomial whose values in an infinite extension have a derivative in the base field has this
derivative as its coefficient of degree one. -/
theorem coeff_one_of_holds [Infinite L] (ι : K →+* L) {q : Polynomial K} {f : L → L} {d : K}
    (hEval : ∀ t, q.eval₂ ι t = f t) (h : DerivativeRule.polynomial.Holds f (ι d)) :
    q.coeff 1 = d := by
  have hCoeff : DerivativeRule.polynomial.Holds f (ι (q.coeff 1)) :=
    ⟨q.map ι, fun t => by rw [Polynomial.eval_map, hEval], Polynomial.coeff_map ι 1⟩
  exact ι.injective (DerivativeRule.polynomial.unique inferInstance hCoeff h)

variable [RealOps (Polynomial K)]

/-- Polynomials with their division with remainder. What the other operations are is left open. -/
noncomputable instance : Scalar (Polynomial K) where

theorem ofNat_polynomial (n : Nat) :
    (Scalar.ofNat n : Polynomial K) = .C (Scalar.ofNat n) := by
  induction n with
  | zero => exact (Polynomial.C_0).symm
  | succ n ih =>
      rw [Scalar.ofNat, ih, Scalar.ofNat, Polynomial.C_add, Polynomial.C_1]

theorem half_polynomial : (Scalar.half : Polynomial K) = .C Scalar.half := by
  rw [Scalar.half, ofNat_polynomial, Polynomial.div_C, one_mul, Scalar.half, one_div]

/-- The value of a polynomial at a time in an extension of the field. -/
noncomputable def Scalar.Hom.evalAt (ι : K →+* L) (t : L) : Scalar.Hom (Polynomial K) L where
  toFun := Polynomial.eval₂ ι t
  map_zero := Polynomial.eval₂_zero ι t
  map_one := Polynomial.eval₂_one ι t
  map_add _ _ := Polynomial.eval₂_add ι t
  map_sub _ _ := Polynomial.eval₂_sub ι
  map_mul _ _ := Polynomial.eval₂_mul ι t
  map_half := by
    rw [half_polynomial, Polynomial.eval₂_C]
    exact (Scalar.Hom.ofRingHom ι).map_half

/-! ### Along a line -/

namespace Law

variable (law : Law) (p : Lame K) (F H : Mat3 K)

/-- The energy density at `F + t H`, computed with polynomials in `t`. -/
noncomputable def energyAlong : Polynomial K :=
  law.energy (p.map .C) (F.map .C + (H.map .C).scale .X)

/-- The stress at `F + t H`, computed with polynomials in `t`. -/
noncomputable def stressAlong : Mat3 (Polynomial K) :=
  law.stress (p.map .C) (F.map .C + (H.map .C).scale .X)

variable {law p F H} (ι : K →+* L) (t : L)

/-- The point of the line at a time. -/
theorem map_line : (F.map Polynomial.C + (H.map Polynomial.C).scale .X).map
    (Scalar.Hom.evalAt ι t).toFun = F.map ι + (H.map ι).scale t := by
  have hConst (A : Mat3 K) : (A.map Polynomial.C).map (Polynomial.eval₂ ι t) = A.map ι := by
    ext <;> exact Polynomial.eval₂_C ι t
  rw [Mat3.map_add, Mat3.map_scale]
  show (F.map Polynomial.C).map (Polynomial.eval₂ ι t) +
    ((H.map Polynomial.C).map (Polynomial.eval₂ ι t)).scale (Polynomial.eval₂ ι t .X) = _
  rw [hConst, hConst, Polynomial.eval₂_X]

theorem map_parameters :
    (p.map Polynomial.C).map (Scalar.Hom.evalAt ι t).toFun = p.map ι := by
  have hConst (x : K) : Polynomial.eval₂ ι t (.C x) = ι x := Polynomial.eval₂_C ι t
  show (⟨Polynomial.eval₂ ι t (.C p.mu), Polynomial.eval₂ ι t (.C p.lambda)⟩ : Lame L) = _
  rw [hConst, hConst, Lame.map]

variable (hLaw : law ≠ neoHookean)

include hLaw

/-- At every time the polynomial has the value of the energy density. -/
theorem eval₂_energyAlong : (law.energyAlong p F H).eval₂ ι t =
    law.energy (p.map ι) (F.map ι + (H.map ι).scale t) := by
  rw [← map_line, ← map_parameters ι t, energy_map _ _ _ hLaw]
  rfl

theorem map_stressAlong : (law.stressAlong p F H).map (Polynomial.eval₂ ι t) =
    law.stress (p.map ι) (F.map ι + (H.map ι).scale t) := by
  rw [← map_line, ← map_parameters ι t, stress_map _ _ _ hLaw]
  rfl

/-- The components of the stress, applied to a vector, have the values of their polynomials. -/
theorem eval₂_stressAlong (a : Vec3 K) (i : Fin 3) :
    (((law.stressAlong p F H).mulVec (a.map .C)).get i).eval₂ ι t =
      ((law.stress (p.map ι) (F.map ι + (H.map ι).scale t)).mulVec (a.map ι)).get i := by
  have hVector : (a.map Polynomial.C).map (Polynomial.eval₂ ι t) = a.map ι := by
    ext <;> exact Polynomial.eval₂_C ι t
  rw [← map_stressAlong ι t hLaw, ← hVector]
  have hProduct := Mat3.map_mulVec (.evalAt ι t) (law.stressAlong p F H) (a.map .C)
  exact (Vec3.get_map (Polynomial.eval₂ ι t) _ i).symm.trans
    (congrArg (fun v => v.get i) hProduct)

/-- The coefficient of degree one of the energy density is the product of stress and direction. -/
theorem coeff_energyAlong : (law.energyAlong p F H).coeff 1 = (law.stress p F).dot H := by
  obtain ⟨L, hL, ι, hInfinite⟩ := exists_infinite_extension K
  refine coeff_one_of_holds ι (fun t => eval₂_energyAlong ι t hLaw) ?_
  have hStress : ι ((law.stress p F).dot H) =
      (law.stress (p.map ι) (F.map ι)).dot (H.map ι) := by
    have hMap := stress_map (.ofRingHom ι) p F hLaw
    have hDot := Mat3.map_dot (.ofRingHom ι) (law.stress p F) H
    rw [← hMap] at hDot
    exact hDot
  rw [hStress]
  exact (hasDerivatives_of_ne .polynomial _ _ hLaw).energy (H.map ι)

/-- The coefficients of degree one of the stress are the contractions. -/
theorem coeff_stressAlong (a b : Vec3 K) (i j : Fin 3) :
    (((law.stressAlong p F (Mat3.outer (.unit j) b)).mulVec (a.map .C)).get i).coeff 1 =
      (law.contraction p F a b).get i j := by
  obtain ⟨L, hL, ι, hInfinite⟩ := exists_infinite_extension K
  have hContraction : ι ((law.contraction p F a b).get i j) =
      (law.contraction (p.map ι) (F.map ι) (a.map ι) (b.map ι)).get i j := by
    have hMap := contraction_map (.ofRingHom ι) p F hLaw a b
    exact (Mat3.get_map ι _ i j).symm.trans (congrArg (fun A => A.get i j) hMap.symm)
  have hOuter : (Mat3.outer (.unit j) b).map ι = Mat3.outer (.unit j) (b.map ι) := by
    rw [← Vec3.map_unit (.ofRingHom ι) j]
    exact Mat3.map_outer (.ofRingHom ι) (.unit j) b
  refine coeff_one_of_holds ι (fun t => eval₂_stressAlong ι t hLaw a i) ?_
  rw [hContraction, hOuter]
  exact (hasDerivatives_of_ne .polynomial _ _ hLaw).entry (a.map ι) (b.map ι) i j

end Law

end Polynomials

end Elastodynamics
