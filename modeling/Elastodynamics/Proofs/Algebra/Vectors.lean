import Mathlib.Algebra.BigOperators.Group.List.Basic
import Elastodynamics.Proofs.Algebra.Exact
/-!
Space vectors over exact scalars. They are an additive group, multiplication by a scalar respects
its addition, and so does the product of a matrix and a vector on both sides.
-/
namespace Elastodynamics

/-! ### Values at indices -/

theorem vector_ext_get {β : Type} {n : Nat} {v w : Vector β n} (h : ∀ i, v.get i = w.get i) :
    v = w :=
  Vector.ext fun i hi => h ⟨i, hi⟩

@[simp] theorem vector_get_ofFn {β : Type} {n : Nat} (f : Fin n → β) (i : Fin n) :
    (Vector.ofFn f).get i = f i :=
  Vector.getElem_ofFn i.isLt

@[simp] theorem vector_get_map {β γ : Type} {n : Nat} (f : β → γ) (v : Vector β n) (i : Fin n) :
    (v.map f).get i = f (v.get i) :=
  Vector.getElem_map f i.isLt

variable {K : Type} [ExactScalar K]

namespace Vec3

instance : Neg (Vec3 K) := ⟨fun v => ⟨-v.x, -v.y, -v.z⟩⟩

instance : AddCommGroup (Vec3 K) where
  add_assoc u v w := by ext <;> exact add_assoc _ _ _
  zero_add v := by ext <;> exact zero_add _
  add_zero v := by ext <;> exact add_zero _
  add_comm u v := by ext <;> exact add_comm _ _
  neg_add_cancel v := by ext <;> exact neg_add_cancel _
  sub_eq_add_neg u v := by ext <;> exact sub_eq_add_neg _ _
  nsmul := nsmulRec
  zsmul := zsmulRec

theorem sub_def (v w : Vec3 K) : v - w = ⟨v.x - w.x, v.y - w.y, v.z - w.z⟩ := rfl

theorem ext_get {α : Type} {v w : Vec3 α} (h : ∀ p, v.get p = w.get p) : v = w :=
  Vec3.ext (h 0) (h 1) (h 2)

@[simp] theorem get_zero (p : Fin 3) : (0 : Vec3 K).get p = 0 := by
  match p with
  | 0 | 1 | 2 => rfl

@[simp] theorem get_add (v w : Vec3 K) (p : Fin 3) : (v + w).get p = v.get p + w.get p := by
  match p with
  | 0 | 1 | 2 => rfl

@[simp] theorem get_sub (v w : Vec3 K) (p : Fin 3) : (v - w).get p = v.get p - w.get p := by
  match p with
  | 0 | 1 | 2 => rfl

@[simp] theorem get_neg (v : Vec3 K) (p : Fin 3) : (-v).get p = -v.get p := by
  match p with
  | 0 | 1 | 2 => rfl

@[simp] theorem get_scale (v : Vec3 K) (s : K) (p : Fin 3) : (v.scale s).get p = v.get p * s := by
  match p with
  | 0 | 1 | 2 => rfl

/-- A component of a sum is the sum of the components. -/
theorem get_sum {ι : Type} (s : Finset ι) (f : ι → Vec3 K) (p : Fin 3) :
    (∑ i ∈ s, f i).get p = ∑ i ∈ s, (f i).get p :=
  map_sum (⟨⟨fun v => v.get p, get_zero p⟩, fun v w => get_add v w p⟩ : Vec3 K →+ K) f s

theorem get_list_sum (l : List (Vec3 K)) (p : Fin 3) :
    l.sum.get p = (l.map fun v => v.get p).sum :=
  map_list_sum (⟨⟨fun v => v.get p, get_zero p⟩, fun v w => get_add v w p⟩ : Vec3 K →+ K) l

/-! ### Multiplication by a scalar -/

@[simp] theorem zero_scale (s : K) : (0 : Vec3 K).scale s = 0 := by
  ext <;> exact zero_mul _

@[simp] theorem scale_zero (v : Vec3 K) : v.scale 0 = 0 := by
  ext <;> exact mul_zero _

theorem add_scale (v w : Vec3 K) (s : K) : (v + w).scale s = v.scale s + w.scale s := by
  ext <;> exact add_mul _ _ _

theorem sub_scale (v w : Vec3 K) (s : K) : (v - w).scale s = v.scale s - w.scale s := by
  ext <;> exact sub_mul _ _ _

theorem scale_add (v : Vec3 K) (s t : K) : v.scale (s + t) = v.scale s + v.scale t := by
  ext <;> exact mul_add _ _ _

theorem scale_scale (v : Vec3 K) (s t : K) : (v.scale s).scale t = v.scale (s * t) := by
  ext <;> exact mul_assoc _ _ _

theorem sum_scale {ι : Type} (S : Finset ι) (f : ι → Vec3 K) (s : K) :
    (∑ i ∈ S, f i).scale s = ∑ i ∈ S, (f i).scale s :=
  map_sum (⟨⟨fun v => v.scale s, zero_scale s⟩, fun v w => add_scale v w s⟩ : Vec3 K →+ Vec3 K) f S

theorem scale_sum {ι : Type} (S : Finset ι) (v : Vec3 K) (f : ι → K) :
    v.scale (∑ i ∈ S, f i) = ∑ i ∈ S, v.scale (f i) :=
  map_sum (⟨⟨fun s => v.scale s, scale_zero v⟩, scale_add v⟩ : K →+ Vec3 K) f S

/-- The unit vector of a component. -/
def unit (j : Fin 3) : Vec3 K := .ofFn fun p => if p = j then 1 else 0

end Vec3

namespace Mat3

variable (A B : Mat3 K) (v w : Vec3 K) (s : K)

/-! ### Products of matrices and vectors -/

theorem get_mulVec (p : Fin 3) : (A.mulVec v).get p = ∑ q, A.get p q * v.get q := by
  rw [Fin.sum_univ_three]
  match p with
  | 0 | 1 | 2 => rfl

/-- The entries of a matrix are the components of its products with unit vectors. -/
theorem get_mulVec_unit (p j : Fin 3) : (A.mulVec (.unit j)).get p = A.get p j := by
  simp only [get_mulVec, Vec3.unit, Vec3.get_ofFn, mul_ite, mul_one, mul_zero, Finset.sum_ite_eq',
    Finset.mem_univ, if_true]

@[simp] theorem get_zero (p q : Fin 3) : (0 : Mat3 K).get p q = 0 := by
  match p, q with
  | 0, 0 | 0, 1 | 0, 2 | 1, 0 | 1, 1 | 1, 2 | 2, 0 | 2, 1 | 2, 2 => rfl

@[simp] theorem get_add (p q : Fin 3) : (A + B).get p q = A.get p q + B.get p q := by
  match p, q with
  | 0, 0 | 0, 1 | 0, 2 | 1, 0 | 1, 1 | 1, 2 | 2, 0 | 2, 1 | 2, 2 => rfl

@[simp] theorem get_scale (p q : Fin 3) : (A.scale s).get p q = A.get p q * s := by
  match p, q with
  | 0, 0 | 0, 1 | 0, 2 | 1, 0 | 1, 1 | 1, 2 | 2, 0 | 2, 1 | 2, 2 => rfl

@[simp] theorem mulVec_zero : A.mulVec 0 = 0 := by
  refine Vec3.ext_get fun p => ?_
  simp [get_mulVec]

@[simp] theorem zero_mulVec : (0 : Mat3 K).mulVec v = 0 := by
  refine Vec3.ext_get fun p => ?_
  simp [get_mulVec]

theorem mulVec_add : A.mulVec (v + w) = A.mulVec v + A.mulVec w := by
  refine Vec3.ext_get fun p => ?_
  simp only [get_mulVec, Vec3.get_add, mul_add, Finset.sum_add_distrib]

theorem mulVec_scale : A.mulVec (v.scale s) = (A.mulVec v).scale s := by
  refine Vec3.ext_get fun p => ?_
  simp only [get_mulVec, Vec3.get_scale, Finset.sum_mul, mul_assoc]

theorem add_mulVec : (A + B).mulVec v = A.mulVec v + B.mulVec v := by
  refine Vec3.ext_get fun p => ?_
  simp only [get_mulVec, get_add, Vec3.get_add, add_mul, Finset.sum_add_distrib]

theorem scale_mulVec : (A.scale s).mulVec v = (A.mulVec v).scale s := by
  refine Vec3.ext_get fun p => ?_
  simp only [get_mulVec, get_scale, Vec3.get_scale, Finset.sum_mul, mul_right_comm]

theorem diagonal_mulVec : (diagonal s).mulVec v = v.scale s := by
  ext <;> simp [mulVec, diagonal, Vec3.scale, mul_comm]

theorem ite_mulVec (c : Prop) [Decidable c] :
    (if c then A else 0).mulVec v = if c then A.mulVec v else 0 := by
  split
  · rfl
  · exact zero_mulVec v

theorem sum_mulVec {ι : Type} (S : Finset ι) (f : ι → Mat3 K) :
    (∑ i ∈ S, f i).mulVec v = ∑ i ∈ S, (f i).mulVec v :=
  map_sum (⟨⟨fun A => A.mulVec v, zero_mulVec v⟩, fun A B => add_mulVec A B v⟩ :
    Mat3 K →+ Vec3 K) f S

/-- An entry of a sum is the sum of the entries. -/
theorem get_sum {ι : Type} (S : Finset ι) (f : ι → Mat3 K) (p q : Fin 3) :
    (∑ i ∈ S, f i).get p q = ∑ i ∈ S, (f i).get p q :=
  map_sum (⟨⟨fun A => A.get p q, get_zero p q⟩, fun A B => get_add A B p q⟩ : Mat3 K →+ K) f S

theorem list_sum_mulVec (l : List (Mat3 K)) :
    l.sum.mulVec v = (l.map fun A => A.mulVec v).sum :=
  map_list_sum (⟨⟨fun A => A.mulVec v, zero_mulVec v⟩, fun A B => add_mulVec A B v⟩ :
    Mat3 K →+ Vec3 K) l

end Mat3

end Elastodynamics
