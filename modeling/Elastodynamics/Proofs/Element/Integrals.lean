import Elastodynamics.Proofs.Element.Matrices
import Elastodynamics.Proofs.Material.Contractions
import Elastodynamics.Element.Response
/-!
Energy, elastic forces and stiffness of an element as sums over its quadrature points. Every block
of the stiffness matrix is a sum of contractions, also those that are not accumulated but follow by
symmetry.
-/
namespace Elastodynamics

variable {K : Type} [ExactScalar K]

namespace Mat3

/-- A symmetric matrix is completed to itself. -/
theorem symmetricOfUpper_of_symmetric {α : Type} {A : Mat3 α} (h : A.transpose = A) :
    A.symmetricOfUpper = A := by
  have hxy : A.xy = A.yx := (congrArg Mat3.yx h)
  have hxz : A.xz = A.zx := (congrArg Mat3.zx h)
  have hyz : A.yz = A.zy := (congrArg Mat3.zy h)
  ext <;> simp only [symmetricOfUpper, hxy, hxz, hyz]

theorem transpose_list_sum (l : List (Mat3 K)) :
    l.sum.transpose = (l.map transpose).sum :=
  map_list_sum (⟨⟨transpose, transpose_zero⟩, transpose_add⟩ : Mat3 K →+ Mat3 K) l

end Mat3

namespace Element

/-- What is computed for the members of a list, each beside its member. -/
theorem zip_map_self {β γ : Type} (l : List β) (f : β → γ) :
    l.zip (l.map f) = l.map fun b => (b, f b) := by
  simpa using List.zip_map' (f := id) (g := f) (l := l)

variable {S : Shape}

section

variable {α : Type} [Scalar α] (e : Element S α) (x : Vector (Vec3 α) S.nodeCount)

theorem energy_eq : (e.computeData x).energy = (e.points.map fun q =>
    q.weight * e.properties.law.energy e.properties.lame (deformation x q)).sum := by
  simp only [computeData, zip_map_self, List.map_map]
  rfl

theorem elasticForce_eq (b : Fin S.nodeCount) :
    e.elasticForce (e.computeData x) b = (e.points.map fun q =>
      ((e.properties.law.stress e.properties.lame (deformation x q)).mulVec
        (q.gradients.get b)).scale q.weight).sum := by
  simp only [elasticForce, computeData, List.map_map, zip_map_self]
  rfl

end

variable (e : Element S K) (x : Vector (Vec3 K) S.nodeCount)

/-! ### Stiffness -/

/-- Blocks on and above the diagonal accumulate the contractions of their gradients. -/
theorem get_accumulatedStiffness {n : Nat} (law : Law) (lame : Lame K)
    (states : List (QuadraturePoint n K × Mat3 K)) {a b : Fin n} (hUpper : a ≤ b) :
    (accumulatedStiffness law lame states).get a b = (states.map fun (q, F) =>
      (law.contraction lame F (q.gradients.get a) (q.gradients.get b)).scale q.weight).sum := by
  have hFold (A : Dense (Mat3 K) n n) :
      (states.foldl (fun A (q, F) =>
        Dense.addUpper A (law.contractions lame q.weight F q.gradients)) A).get a b =
      A.get a b + (states.map fun (q, F) =>
        (law.contraction lame F (q.gradients.get a) (q.gradients.get b)).scale q.weight).sum := by
    induction states generalizing A with
    | nil => exact (add_zero _).symm
    | cons s states ih =>
        rw [List.foldl_cons, ih, List.map_cons, List.sum_cons, ← add_assoc]
        simp only [Dense.addUpper, Law.contractions_eq, Law.plainContractions, Dense.get_ofFn,
          if_pos hUpper]
  rw [accumulatedStiffness, hFold, Dense.get_repeated, zero_add]

/-- The sum over the quadrature points of the contractions of the gradients of two nodes. -/
def integratedContraction (a b : Fin S.nodeCount) : Mat3 K :=
  (e.points.map fun q => (e.properties.law.contraction e.properties.lame (deformation x q)
    (q.gradients.get a) (q.gradients.get b)).scale q.weight).sum

theorem transpose_integratedContraction (a b : Fin S.nodeCount) :
    (e.integratedContraction x a b).transpose = e.integratedContraction x b a := by
  simp only [integratedContraction, Mat3.transpose_list_sum, List.map_map, Function.comp_def,
    Mat3.transpose_scale, Law.transpose_contraction]

/-- Every block of the stiffness matrix is the sum of the contractions of its gradients. -/
theorem get_stiffness (a b : Fin S.nodeCount) :
    (e.computeData x).stiffness.get a b = e.integratedContraction x a b := by
  have hUpper {a b : Fin S.nodeCount} (h : a ≤ b) :
      (accumulatedStiffness e.properties.law e.properties.lame
        (e.points.zip (e.points.map (deformation x)))).get a b = e.integratedContraction x a b := by
    rw [get_accumulatedStiffness _ _ _ h, zip_map_self, List.map_map]
    rfl
  simp only [computeData, Dense.symmetricOfUpper, Dense.get_ofFn]
  rcases lt_trichotomy a b with hlt | rfl | hgt
  · rw [if_pos hlt, hUpper hlt.le]
  · rw [if_neg (lt_irrefl a), if_neg (lt_irrefl a), hUpper le_rfl]
    exact Mat3.symmetricOfUpper_of_symmetric (e.transpose_integratedContraction x a a)
  · rw [if_neg (lt_asymm hgt), if_pos hgt, hUpper hgt.le, e.transpose_integratedContraction]

end Element

end Elastodynamics
