import Elastodynamics.Proofs.Algebra.Vectors
/-!
Space matrices over exact scalars are a ring. Multiples, products of a column and a row, the trace
and the product of corresponding entries respect its operations, and so do products with vectors.
-/
namespace Elastodynamics

variable {K : Type} [ExactScalar K]

/-! ### Products of vectors -/

namespace Vec3

variable (u v w : Vec3 K) (s : K)

theorem dot_eq_sum : u.dot v = ∑ p, u.get p * v.get p := by
  rw [Fin.sum_univ_three]
  rfl

theorem dot_comm : u.dot v = v.dot u := by
  simp only [dot_eq_sum, mul_comm]

theorem add_dot : (u + v).dot w = u.dot w + v.dot w := by
  simp only [dot_eq_sum, get_add, add_mul, Finset.sum_add_distrib]

theorem scale_dot : (u.scale s).dot v = u.dot v * s := by
  simp only [dot_eq_sum, get_scale, Finset.sum_mul, mul_right_comm]

@[simp] theorem zero_dot : (0 : Vec3 K).dot v = 0 := by
  simp [dot_eq_sum]

@[simp] theorem dot_zero : u.dot 0 = 0 := by
  simp [dot_eq_sum]

theorem ite_dot (c : Prop) [Decidable c] :
    (if c then u else 0).dot v = if c then u.dot v else 0 := by
  split
  · rfl
  · exact zero_dot v

theorem sum_dot {ι : Type} (S : Finset ι) (f : ι → Vec3 K) :
    (∑ i ∈ S, f i).dot v = ∑ i ∈ S, (f i).dot v :=
  map_sum (⟨⟨fun u => u.dot v, zero_dot v⟩, fun u w => add_dot u w v⟩ : Vec3 K →+ K) f S

theorem list_sum_dot (l : List (Vec3 K)) : l.sum.dot v = (l.map fun u => u.dot v).sum :=
  map_list_sum (⟨⟨fun u => u.dot v, zero_dot v⟩, fun u w => add_dot u w v⟩ : Vec3 K →+ K) l

end Vec3

namespace Mat3

variable (A B C : Mat3 K) (u v w : Vec3 K) (s : K)

/-! ### Entries -/

theorem ext_get {α : Type} {A B : Mat3 α} (h : ∀ p q, A.get p q = B.get p q) : A = B := by
  rw [← ofFn_get A, ← ofFn_get B]
  exact congrArg ofFn (funext fun p => funext (h p))

@[simp] theorem get_sub (p q : Fin 3) : (A - B).get p q = A.get p q - B.get p q := by
  match p, q with
  | 0, 0 | 0, 1 | 0, 2 | 1, 0 | 1, 1 | 1, 2 | 2, 0 | 2, 1 | 2, 2 => rfl

theorem get_diagonal (p q : Fin 3) : (diagonal s).get p q = if p = q then s else 0 := by
  match p, q with
  | 0, 0 | 0, 1 | 0, 2 | 1, 0 | 1, 1 | 1, 2 | 2, 0 | 2, 1 | 2, 2 => rfl

theorem get_one (p q : Fin 3) : (1 : Mat3 K).get p q = if p = q then 1 else 0 :=
  get_diagonal 1 p q

theorem get_outer (p q : Fin 3) : (outer u v).get p q = u.get p * v.get q := by
  match p, q with
  | 0, 0 | 0, 1 | 0, 2 | 1, 0 | 1, 1 | 1, 2 | 2, 0 | 2, 1 | 2, 2 => rfl

theorem get_mul (p q : Fin 3) : (A * B).get p q = ∑ k, A.get p k * B.get k q := by
  rw [Fin.sum_univ_three]
  match p, q with
  | 0, 0 | 0, 1 | 0, 2 | 1, 0 | 1, 1 | 1, 2 | 2, 0 | 2, 1 | 2, 2 => rfl

theorem dot_eq_sum : A.dot B = ∑ p, ∑ q, A.get p q * B.get p q := by
  simp only [Fin.sum_univ_three]
  rfl

theorem trace_eq_sum : A.trace = ∑ p, A.get p p := by
  rw [Fin.sum_univ_three]
  rfl

/-! ### The ring of matrices -/

instance : Neg (Mat3 K) :=
  ⟨fun A => ⟨-A.xx, -A.xy, -A.xz, -A.yx, -A.yy, -A.yz, -A.zx, -A.zy, -A.zz⟩⟩

instance : Ring (Mat3 K) where
  __ := (inferInstance : AddCommMonoid (Mat3 K))
  neg_add_cancel A := by ext <;> exact neg_add_cancel _
  sub_eq_add_neg A B := by ext <;> exact sub_eq_add_neg _ _
  zsmul := zsmulRec
  one_mul A := by
    refine ext_get fun p q => ?_
    simp [get_mul, get_one]
  mul_one A := by
    refine ext_get fun p q => ?_
    simp [get_mul, get_one]
  mul_assoc A B C := by
    refine ext_get fun p q => ?_
    simp only [get_mul, Fin.sum_univ_three]
    ring
  left_distrib A B C := by
    refine ext_get fun p q => ?_
    simp only [get_mul, get_add, mul_add, Finset.sum_add_distrib]
  right_distrib A B C := by
    refine ext_get fun p q => ?_
    simp only [get_mul, get_add, add_mul, Finset.sum_add_distrib]
  zero_mul A := by
    refine ext_get fun p q => ?_
    simp [get_mul]
  mul_zero A := by
    refine ext_get fun p q => ?_
    simp [get_mul]

/-! ### Sums and multiples -/

theorem sub_scale : (A - B).scale s = A.scale s - B.scale s := by
  ext <;> exact sub_mul _ _ _

theorem scale_neg : A.scale (-s) = -A.scale s := by
  ext <;> exact mul_neg _ _

theorem sum_scale {ι : Type} (S : Finset ι) (f : ι → Mat3 K) :
    (∑ i ∈ S, f i).scale s = ∑ i ∈ S, (f i).scale s :=
  map_sum (⟨⟨fun A => A.scale s, zero_scale s⟩, fun A B => add_scale A B s⟩ : Mat3 K →+ Mat3 K) f S

theorem transpose_sub : (A - B).transpose = A.transpose - B.transpose := rfl

theorem sub_mulVec : (A - B).mulVec v = A.mulVec v - B.mulVec v := by
  refine Vec3.ext_get fun p => ?_
  simp only [get_mulVec, get_sub, Vec3.get_sub, sub_mul, Finset.sum_sub_distrib]

theorem transpose_neg : (-A).transpose = -A.transpose := rfl

theorem neg_mulVec : (-A).mulVec v = -A.mulVec v := by
  rw [← zero_sub, sub_mulVec, zero_mulVec, zero_sub]

@[simp] theorem trace_zero : (0 : Mat3 K).trace = 0 := by
  simp [trace_eq_sum]

theorem trace_add : (A + B).trace = A.trace + B.trace := by
  simp only [trace_eq_sum, get_add, Finset.sum_add_distrib]

theorem trace_scale : (A.scale s).trace = A.trace * s := by
  simp only [trace_eq_sum, get_scale, Finset.sum_mul]

theorem trace_transpose : A.transpose.trace = A.trace := rfl

theorem dot_comm : A.dot B = B.dot A := by
  simp only [dot_eq_sum, mul_comm]

theorem add_dot : (A + B).dot C = A.dot C + B.dot C := by
  simp only [dot_eq_sum, get_add, add_mul, Finset.sum_add_distrib]

@[simp] theorem zero_dot : (0 : Mat3 K).dot A = 0 := by
  simp [dot_eq_sum]

theorem sub_dot : (A - B).dot C = A.dot C - B.dot C := by
  simp only [dot_eq_sum, get_sub, sub_mul, Finset.sum_sub_distrib]

theorem scale_dot : (A.scale s).dot B = A.dot B * s := by
  simp only [dot_eq_sum, get_scale, Finset.sum_mul, mul_right_comm]

theorem dot_sum {ι : Type} (S : Finset ι) (f : ι → Mat3 K) :
    A.dot (∑ i ∈ S, f i) = ∑ i ∈ S, A.dot (f i) := by
  simp only [dot_comm A]
  exact map_sum (⟨⟨fun B => B.dot A, zero_dot A⟩, fun B C => add_dot B C A⟩ : Mat3 K →+ K) f S

theorem diagonal_dot : (diagonal s).dot A = A.trace * s := by
  simp [dot_eq_sum, trace_eq_sum, get_diagonal, Fin.sum_univ_three]
  ring

theorem transpose_dot_transpose : A.transpose.dot B.transpose = A.dot B := by
  simp only [dot_eq_sum, get_transpose, Fin.sum_univ_three]
  ring

/-! ### Products of matrices -/

@[simp] theorem diagonal_zero : diagonal (0 : K) = 0 := rfl

theorem diagonal_add (s t : K) : diagonal (s + t) = diagonal s + diagonal t := by
  ext <;> first | rfl | exact (add_zero 0).symm

theorem diagonal_list_sum (l : List K) : diagonal l.sum = (l.map diagonal).sum :=
  map_list_sum (⟨⟨diagonal, diagonal_zero⟩, diagonal_add⟩ : K →+ Mat3 K) l

theorem diagonal_mul : diagonal s * A = A.scale s := by
  refine ext_get fun p q => ?_
  simp [get_mul, get_diagonal, mul_comm]

theorem mul_diagonal : A * diagonal s = A.scale s := by
  refine ext_get fun p q => ?_
  simp [get_mul, get_diagonal]

theorem transpose_mul : (A * B).transpose = B.transpose * A.transpose := by
  refine ext_get fun p q => ?_
  simp only [get_transpose, get_mul, mul_comm]

theorem mul_mulVec : (A * B).mulVec v = A.mulVec (B.mulVec v) := by
  refine Vec3.ext_get fun p => ?_
  simp only [get_mulVec, get_mul, Fin.sum_univ_three]
  ring

@[simp] theorem one_mulVec : (1 : Mat3 K).mulVec v = v := by
  refine Vec3.ext_get fun p => ?_
  simp [get_mulVec, get_one]

theorem dot_mulVec : u.dot (A.mulVec v) = (A.transpose.mulVec u).dot v := by
  simp only [Vec3.dot_eq_sum, get_mulVec, get_transpose, Fin.sum_univ_three]
  ring

theorem mul_dot : (A * B).dot C = B.dot (A.transpose * C) := by
  simp only [dot_eq_sum, get_mul, get_transpose, Fin.sum_univ_three]
  ring

theorem trace_transpose_mul : (A.transpose * B).trace = A.dot B := by
  simp only [trace_eq_sum, dot_eq_sum, get_mul, get_transpose, Fin.sum_univ_three]
  ring

/-! ### Products of a column and a row -/

theorem add_outer : outer (u + v) w = outer u w + outer v w := by
  refine ext_get fun p q => ?_
  simp only [get_outer, get_add, Vec3.get_add, add_mul]

theorem scale_outer : outer (u.scale s) v = (outer u v).scale s := by
  refine ext_get fun p q => ?_
  simp only [get_outer, get_scale, Vec3.get_scale, mul_right_comm]

theorem transpose_outer : (outer u v).transpose = outer v u := by
  refine ext_get fun p q => ?_
  rw [get_transpose, get_outer, get_outer, mul_comm]

theorem outer_mulVec : (outer u v).mulVec w = u.scale (v.dot w) := by
  refine Vec3.ext_get fun p => ?_
  simp only [get_mulVec, get_outer, Vec3.get_scale, Vec3.dot_eq_sum, Finset.mul_sum, mul_assoc]

theorem mul_outer : A * outer u v = outer (A.mulVec u) v := by
  refine ext_get fun p q => ?_
  simp only [get_mul, get_outer, get_mulVec, Finset.sum_mul, mul_assoc]

theorem outer_mul : outer u v * A = outer u (A.transpose.mulVec v) := by
  refine ext_get fun p q => ?_
  simp only [get_mul, get_outer, get_mulVec, get_transpose, Finset.mul_sum]
  exact Finset.sum_congr rfl fun k _ => by ring

theorem trace_outer : (outer u v).trace = u.dot v := by
  simp only [trace_eq_sum, get_outer, Vec3.dot_eq_sum]

/-- The product of corresponding entries with a column and a row is the product of the column with
what the matrix makes of the row. -/
theorem dot_outer : A.dot (outer u v) = (A.mulVec v).dot u := by
  simp only [dot_eq_sum, get_outer, Vec3.dot_eq_sum, get_mulVec, Fin.sum_univ_three]
  ring

/-! ### The symmetric part -/

theorem trace_symmetricPart : A.symmetricPart.trace = A.trace := by
  rw [symmetricPart, trace_scale, trace_add, trace_transpose, add_mul, ← mul_add,
    Scalar.half_add_half, mul_one]

/-- A symmetric matrix does not see what is not symmetric. -/
theorem dot_symmetricPart {A : Mat3 K} (h : A.transpose = A) : A.dot B.symmetricPart = A.dot B := by
  have hTranspose : A.dot B.transpose = A.dot B := by
    rw [← transpose_dot_transpose, transpose_transpose, h]
  rw [dot_comm, symmetricPart, scale_dot, add_dot, dot_comm B, dot_comm B.transpose, hTranspose,
    add_mul, ← mul_add, Scalar.half_add_half, mul_one]

end Mat3

end Elastodynamics
