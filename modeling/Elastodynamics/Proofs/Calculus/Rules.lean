import Mathlib.Algebra.Polynomial.Roots
import Elastodynamics.Proofs.Algebra.Matrices
/-!
Rules of differentiation. What a derivative at zero is may be said in several ways: for functions
that are polynomials it is a coefficient, over any field, and for real functions it is a limit. All
that is needed of it are the rules for constants, sums and products, so that what follows from them
holds in every sense.
-/
namespace Elastodynamics

variable {K : Type} [ExactScalar K]

/-- A sense in which a function of one scalar has a derivative at zero. -/
structure DerivativeRule (K : Type) [ExactScalar K] where
  Holds : (K → K) → K → Prop
  /-- Over an infinite field there is at most one derivative. -/
  unique : Infinite K → ∀ {f : K → K} {f' g' : K}, Holds f f' → Holds f g' → f' = g'
  const : ∀ c, Holds (fun _ => c) 0
  id : Holds (fun t => t) 1
  add : ∀ {f g : K → K} {f' g' : K}, Holds f f' → Holds g g' → Holds (fun t => f t + g t) (f' + g')
  mul : ∀ {f g : K → K} {f' g' : K}, Holds f f' → Holds g g' →
    Holds (fun t => f t * g t) (f' * g 0 + f 0 * g')

namespace DerivativeRule

/-- The derivative of a polynomial function is its coefficient of degree one. -/
def polynomial : DerivativeRule K where
  Holds f f' := ∃ p : Polynomial K, (∀ t, f t = p.eval t) ∧ p.coeff 1 = f'
  unique := by
    rintro _ f f' g' ⟨p, hp, rfl⟩ ⟨q, hq, rfl⟩
    rw [Polynomial.funext fun t => (hp t).symm.trans (hq t)]
  const c := ⟨.C c, fun t => by simp, by simp⟩
  id := ⟨.X, fun t => by simp, by simp⟩
  add := by
    rintro f g f' g' ⟨p, hp, rfl⟩ ⟨q, hq, rfl⟩
    exact ⟨p + q, fun t => by simp [hp, hq], by simp⟩
  mul := by
    rintro f g f' g' ⟨p, hp, rfl⟩ ⟨q, hq, rfl⟩
    refine ⟨p * q, fun t => by simp [hp, hq], ?_⟩
    rw [hp, hq, ← Polynomial.coeff_zero_eq_eval_zero, ← Polynomial.coeff_zero_eq_eval_zero,
      Polynomial.mul_coeff_one]
    ring

variable (R : DerivativeRule K) {f g : K → K} {f' g' : K}

/-! ### Functions with values in the scalars -/

theorem of_eq (h : R.Holds f f') (hSame : f' = g') : R.Holds f g' := hSame ▸ h

theorem const_mul (c : K) (h : R.Holds f f') : R.Holds (fun t => c * f t) (c * f') :=
  R.of_eq (R.mul (R.const c) h) (by ring)

theorem mul_const (c : K) (h : R.Holds f f') : R.Holds (fun t => f t * c) (f' * c) :=
  R.of_eq (R.mul h (R.const c)) (by ring)

theorem sub (hf : R.Holds f f') (hg : R.Holds g g') :
    R.Holds (fun t => f t - g t) (f' - g') := by
  have hNeg := R.add hf (R.const_mul (-1) hg)
  simpa only [neg_one_mul, ← sub_eq_add_neg] using hNeg

/-- The derivative of a function along a line is its slope. -/
theorem affine (c s : K) : R.Holds (fun t => c + s * t) s :=
  R.of_eq (R.add (R.const c) (R.const_mul s R.id)) (by ring)

theorem sum {ι : Type} (S : Finset ι) {f : ι → K → K} {f' : ι → K}
    (h : ∀ i ∈ S, R.Holds (f i) (f' i)) :
    R.Holds (fun t => ∑ i ∈ S, f i t) (∑ i ∈ S, f' i) := by
  classical
  induction S using Finset.induction_on with
  | empty => exact R.const 0
  | insert i S hi ih =>
      simp only [Finset.sum_insert hi]
      exact R.add (h i (Finset.mem_insert_self i S))
        (ih fun j hj => h j (Finset.mem_insert_of_mem hj))

theorem list_sum {β : Type} {l : List β} {f : β → K → K} {f' : β → K}
    (h : ∀ b ∈ l, R.Holds (f b) (f' b)) :
    R.Holds (fun t => (l.map fun b => f b t).sum) (l.map f').sum := by
  induction l with
  | nil => exact R.const 0
  | cons b l ih =>
      simp only [List.map_cons, List.sum_cons]
      exact R.add (h b List.mem_cons_self) (ih fun c hc => h c (List.mem_cons_of_mem b hc))

/-! ### Functions with values in space -/

/-- Every component of a vector has the derivative. -/
def HoldsVec (u : K → Vec3 K) (u' : Vec3 K) : Prop :=
  ∀ p, R.Holds (fun t => (u t).get p) (u'.get p)

/-- Every entry of a matrix has the derivative. -/
def HoldsMat (F : K → Mat3 K) (F' : Mat3 K) : Prop :=
  ∀ p q, R.Holds (fun t => (F t).get p q) (F'.get p q)

variable {R} {u : K → Vec3 K} {u' : Vec3 K} {F G : K → Mat3 K} {F' G' : Mat3 K}

namespace HoldsVec

theorem const (c : Vec3 K) : R.HoldsVec (fun _ => c) 0 := fun p =>
  R.of_eq (R.const _) (Vec3.get_zero p).symm

theorem const_add (c : Vec3 K) (hu : R.HoldsVec u u') : R.HoldsVec (fun t => c + u t) u' :=
  fun p => by simpa only [Vec3.get_add, zero_add] using R.add (R.const (c.get p)) (hu p)

theorem scale (hu : R.HoldsVec u u') (s : K) : R.HoldsVec (fun t => (u t).scale s) (u'.scale s) :=
  fun p => by simpa only [Vec3.get_scale] using R.mul_const s (hu p)

theorem sum {ι : Type} (S : Finset ι) {u : ι → K → Vec3 K} {u' : ι → Vec3 K}
    (h : ∀ i ∈ S, R.HoldsVec (u i) (u' i)) :
    R.HoldsVec (fun t => ∑ i ∈ S, u i t) (∑ i ∈ S, u' i) := fun p => by
  simpa only [Vec3.get_sum] using R.sum S fun i hi => h i hi p

theorem list_sum {β : Type} {l : List β} {u : β → K → Vec3 K} {u' : β → Vec3 K}
    (h : ∀ b ∈ l, R.HoldsVec (u b) (u' b)) :
    R.HoldsVec (fun t => (l.map fun b => u b t).sum) (l.map u').sum := fun p => by
  simpa only [Vec3.get_list_sum, List.map_map, Function.comp_def] using
    R.list_sum fun b hb => h b hb p

end HoldsVec

namespace HoldsMat

theorem of_eq (hF : R.HoldsMat F F') (h : F' = G') : R.HoldsMat F G' := h ▸ hF

theorem const (A : Mat3 K) : R.HoldsMat (fun _ => A) 0 := fun p q =>
  R.of_eq (R.const _) (Mat3.get_zero p q).symm

/-- The derivative of a matrix along a line is its direction. -/
theorem line (A H : Mat3 K) : R.HoldsMat (fun t => A + H.scale t) H := fun p q => by
  simpa only [Mat3.get_add, Mat3.get_scale] using R.affine (A.get p q) (H.get p q)

theorem add (hF : R.HoldsMat F F') (hG : R.HoldsMat G G') :
    R.HoldsMat (fun t => F t + G t) (F' + G') := fun p q => by
  simpa only [Mat3.get_add] using R.add (hF p q) (hG p q)

theorem sub (hF : R.HoldsMat F F') (hG : R.HoldsMat G G') :
    R.HoldsMat (fun t => F t - G t) (F' - G') := fun p q => by
  simpa only [Mat3.get_sub] using R.sub (hF p q) (hG p q)

theorem scale (hF : R.HoldsMat F F') (hf : R.Holds f f') :
    R.HoldsMat (fun t => (F t).scale (f t)) (F'.scale (f 0) + (F 0).scale f') := fun p q => by
  simpa only [Mat3.get_add, Mat3.get_scale] using R.mul (hF p q) hf

theorem scale_const (hF : R.HoldsMat F F') (s : K) :
    R.HoldsMat (fun t => (F t).scale s) (F'.scale s) := fun p q => by
  simpa only [Mat3.get_scale] using R.mul_const s (hF p q)

theorem transpose (hF : R.HoldsMat F F') : R.HoldsMat (fun t => (F t).transpose) F'.transpose :=
  fun p q => by simpa only [Mat3.get_transpose] using hF q p

theorem symmetricPart (hF : R.HoldsMat F F') :
    R.HoldsMat (fun t => (F t).symmetricPart) F'.symmetricPart :=
  (hF.add hF.transpose).scale_const Scalar.half

theorem mul (hF : R.HoldsMat F F') (hG : R.HoldsMat G G') :
    R.HoldsMat (fun t => F t * G t) (F' * G 0 + F 0 * G') := fun p q => by
  simpa only [Mat3.get_add, Mat3.get_mul, Finset.sum_add_distrib] using
    R.sum Finset.univ fun k _ => R.mul (hF p k) (hG k q)

theorem diagonal (hf : R.Holds f f') :
    R.HoldsMat (fun t => Mat3.diagonal (f t)) (Mat3.diagonal f') := fun p q => by
  simp only [Mat3.get_diagonal]
  split
  · exact hf
  · exact R.const 0

theorem trace (hF : R.HoldsMat F F') : R.Holds (fun t => (F t).trace) F'.trace := by
  simpa only [Mat3.trace_eq_sum] using R.sum Finset.univ fun p _ => hF p p

theorem dot (hF : R.HoldsMat F F') (hG : R.HoldsMat G G') :
    R.Holds (fun t => (F t).dot (G t)) (F'.dot (G 0) + (F 0).dot G') := by
  simpa only [Mat3.dot_eq_sum, Finset.sum_add_distrib] using
    R.sum Finset.univ fun p _ => R.sum Finset.univ fun q _ => R.mul (hF p q) (hG p q)

theorem mulVec (hF : R.HoldsMat F F') (a : Vec3 K) :
    R.HoldsVec (fun t => (F t).mulVec a) (F'.mulVec a) := fun p => by
  simpa only [Mat3.get_mulVec] using R.sum Finset.univ fun q _ => R.mul_const (a.get q) (hF p q)

end HoldsMat

end DerivativeRule

end Elastodynamics
