import Elastodynamics.Proofs.Algebra.Matrices
/-!
Vector products over exact scalars. The product of two vectors is the axial vector of a matrix of
rank one, so a sum of products of vectors is zero if the sum of these matrices is symmetric.
-/
namespace Elastodynamics

variable {K : Type} [ExactScalar K]

/-- The vector product: the moment of a force `v` that acts at `u`, about the origin. -/
def Vec3.cross (u v : Vec3 K) : Vec3 K :=
  ⟨u.y * v.z - u.z * v.y, u.z * v.x - u.x * v.z, u.x * v.y - u.y * v.x⟩

namespace Mat3

/-- The axial vector of a matrix: the differences of the entries above and below the main
diagonal. -/
def axial (A : Mat3 K) : Vec3 K := ⟨A.yz - A.zy, A.zx - A.xz, A.xy - A.yx⟩

variable (A B : Mat3 K)

@[simp] theorem axial_zero : (0 : Mat3 K).axial = 0 := by
  ext <;> exact sub_eq_zero_of_eq rfl

theorem axial_add : (A + B).axial = A.axial + B.axial := by
  ext <;> exact add_sub_add_comm _ _ _ _

theorem axial_sum {ι : Type} (s : Finset ι) (f : ι → Mat3 K) :
    (∑ i ∈ s, f i).axial = ∑ i ∈ s, (f i).axial :=
  map_sum (⟨⟨axial, axial_zero⟩, axial_add⟩ : Mat3 K →+ Vec3 K) f s

/-- The vector product is the axial vector of the product of a column and a row. -/
theorem axial_outer (u v : Vec3 K) : (outer u v).axial = u.cross v := by
  ext <;> simp only [axial, outer, Vec3.cross]

variable {A}

/-- Only what is not symmetric has an axial vector. -/
theorem axial_of_symmetric (h : A.transpose = A) : A.axial = 0 := by
  ext
  · exact sub_eq_zero_of_eq (congrArg Mat3.zy h)
  · exact sub_eq_zero_of_eq (congrArg Mat3.xz h)
  · exact sub_eq_zero_of_eq (congrArg Mat3.yx h)

end Mat3

end Elastodynamics
