import Elastodynamics.Proofs.Element.Integrals
import Elastodynamics.Proofs.Material.Accumulation
/-!
The stiffness matrix of an element, entry by entry. The contractions of all quadrature points are
accumulated in place in a matrix of zeros, in the blocks on and above the diagonal, and then every
entry below the main diagonal is overwritten by the one above it. Nothing is lost by that: in every
block stands the sum of the contractions of its own two gradients.
-/
namespace Elastodynamics

/-! ### Completion -/

theorem Mat3.get_symmetricOfUpper {β : Type} (A : Mat3 β) (p q : Fin 3) :
    A.symmetricOfUpper.get p q = if p ≤ q then A.get p q else A.get q p := by
  match p, q with
  | 0, 0 | 0, 1 | 0, 2 | 1, 0 | 1, 1 | 1, 2 | 2, 0 | 2, 1 | 2, 2 => rfl

namespace Dense

variable {β : Type} {n : Nat}

/-- Copies the entries above the main diagonal to those below it. -/
def fillLower (A : Dense β n n) : Dense β n n :=
  .ofFn fun i j => if i ≤ j then A.get i j else A.get j i

theorem get_fillLower_comm (A : Dense β n n) (i j : Fin n) :
    A.fillLower.get i j = A.fillLower.get j i := by
  rw [fillLower, get_ofFn, get_ofFn]
  rcases lt_trichotomy i j with hlt | rfl | hgt
  · rw [if_pos hlt.le, if_neg (not_le_of_gt hlt)]
  · rfl
  · rw [if_neg (not_le_of_gt hgt), if_pos hgt.le]

/-- Scalar indices are in the order of their nodes, and within a node in that of the components. -/
theorem le_iff_nodeOf (i j : Fin (3 * n)) :
    i ≤ j ↔ nodeOf i < nodeOf j ∨ nodeOf i = nodeOf j ∧ componentOf i ≤ componentOf j := by
  simp only [nodeOf, componentOf, Fin.lt_def, Fin.le_def, Fin.ext_iff]
  omega

/-- Completing the blocks of a matrix is copying its entries. -/
theorem flatten_symmetricOfUpper (A : Dense (Mat3 β) n n) :
    A.symmetricOfUpper.flatten = A.flatten.fillLower := by
  apply Dense.ext
  intro i j
  simp only [flatten, fillLower, symmetricOfUpper, get_ofFn]
  rcases lt_trichotomy (nodeOf i) (nodeOf j) with hlt | heq | hgt
  · have hUpper : i ≤ j := (le_iff_nodeOf i j).mpr (.inl hlt)
    rw [if_pos hlt, if_pos hUpper]
  · have hUpper : i ≤ j ↔ componentOf i ≤ componentOf j := by
      simp only [le_iff_nodeOf, heq, lt_irrefl, true_and, false_or]
    rw [← heq, if_neg (lt_irrefl _), if_neg (lt_irrefl _), Mat3.get_symmetricOfUpper]
    simp only [hUpper]
  · have hLower : ¬ i ≤ j := by
      rw [le_iff_nodeOf, not_or]
      exact ⟨lt_asymm hgt, fun h => hgt.ne' h.1⟩
    rw [if_neg (lt_asymm hgt), if_pos hgt, if_neg hLower, Mat3.get_transpose]

end Dense

/-! ### Accumulation -/

section

variable {α : Type} [Scalar α] {n : Nat}

theorem accumulateContractions_eq (contractions : Vector (Vec3 α) n → Dense (Mat3 α) n n)
    (gradients : Vector (Vec3 α) n) (A : Dense α (3 * n) (3 * n)) :
    accumulateContractions contractions gradients A =
      some (A.toBlocks.addUpper (contractions gradients)).flatten := by
  rw [accumulateContractions, dif_pos ⟨rfl, rfl⟩]
  rfl

/-- Accumulation by the loop that a law has for itself, if it has one. -/
def Law.accumulateInPlace {r c : Nat} (law : Law) (p : Lame α) (s : α) (F : Mat3 α)
    (gradients : Vector (Vec3 α) n) (A : Dense α r c) : Option (Dense α r c) :=
  match law with
  | stVK => StVK.accumulate p s F gradients A
  | _ => law.accumulate p s F gradients A

/-- One call adds the contractions of the law to the blocks on and above the diagonal. -/
theorem Law.accumulateInPlace_eq (law : Law) (p : Lame α) (s : α) (F : Mat3 α)
    (gradients : Vector (Vec3 α) n) (A : Dense α (3 * n) (3 * n)) :
    law.accumulateInPlace p s F gradients A =
      some (A.toBlocks.addUpper (law.contractions p s F gradients)).flatten := by
  rw [← accumulateContractions_eq]
  cases law with
  | linearElastic => exact Law.accumulate_eq p s F gradients .linearElastic A
  | neoHookean => exact Law.accumulate_eq p s F gradients .neoHookean A
  | stVK => exact StVK.accumulate_eq p s F gradients A

/-- The entries of a stiffness matrix before it is completed: the contractions at every quadrature
point, with its weight and its deformation gradient, one point after the other. -/
def Element.accumulatedEntries (law : Law) (lame : Lame α)
    (states : List (QuadraturePoint n α × Mat3 α)) : Option (Dense α (3 * n) (3 * n)) :=
  states.foldlM (fun A (q, F) => law.accumulateInPlace lame q.weight F q.gradients A)
    (Dense.repeated 0)

/-- Accumulating entries is accumulating the blocks that they form. -/
theorem Element.accumulatedEntries_eq (law : Law) (lame : Lame α)
    (states : List (QuadraturePoint n α × Mat3 α)) :
    accumulatedEntries law lame states = some (accumulatedStiffness law lame states).flatten := by
  have hZero : (Dense.repeated 0 : Dense α (3 * n) (3 * n)) =
      (Dense.repeated 0 : Dense (Mat3 α) n n).flatten := by
    apply Dense.ext_blockAt
    intro I J
    rw [Dense.blockAt_repeated, Dense.blockAt_flatten, Dense.get_repeated]
    rfl
  rw [accumulatedEntries, accumulatedStiffness, hZero]
  -- the points add to whatever the points before them have left
  generalize (Dense.repeated 0 : Dense (Mat3 α) n n) = A
  induction states generalizing A with
  | nil => rfl
  | cons state states ih =>
      obtain ⟨q, F⟩ := state
      rw [List.foldlM_cons, List.foldl_cons]
      dsimp only
      rw [Law.accumulateInPlace_eq, Dense.toBlocks_flatten]
      exact ih _

/-- Blocks below the diagonal are never written. -/
theorem Element.get_accumulatedStiffness_of_lt (law : Law) (lame : Lame α)
    (states : List (QuadraturePoint n α × Mat3 α)) {I J : Fin n} (hLower : J < I) :
    (accumulatedStiffness law lame states).get I J = 0 := by
  have hKept (A : Dense (Mat3 α) n n) :
      (states.foldl (fun A (q, F) =>
        Dense.addUpper A (law.contractions lame q.weight F q.gradients)) A).get I J =
      A.get I J := by
    induction states generalizing A with
    | nil => rfl
    | cons state states ih =>
        rw [List.foldl_cons, ih]
        simp only [Dense.addUpper, Dense.get_ofFn, if_neg (not_le_of_gt hLower)]
  rw [accumulatedStiffness, hKept, Dense.get_repeated]

end

/-! ### The completed matrix -/

namespace Element

variable {K : Type} [ExactScalar K] {S : Shape}

/-- How the stiffness matrix of an element arises at positions `x` of its nodes, and what it is. -/
structure HasStiffness (e : Element S K) (x : Vector (Vec3 K) S.nodeCount)
    (half : Dense K (3 * S.nodeCount) (3 * S.nodeCount)) (stiffness : Dense (Mat3 K) S.nodeCount
      S.nodeCount) : Prop where
  /-- All calls of the accumulation loop succeed and leave these entries. -/
  accumulated : accumulatedEntries e.properties.law e.properties.lame
    (e.points.map fun q => (q, deformation x q)) = some half
  /-- Half of the blocks are accumulated; those below the diagonal stay zero. -/
  half_blockAt : ∀ I J : Fin S.nodeCount, half.blockAt I J =
    if I ≤ J then e.integratedContraction x I J else 0
  /-- The entries below the main diagonal are copies of those above it. -/
  completed : stiffness.flatten = half.fillLower
  /-- Every block is the sum over the quadrature points of the weighted contractions of its
  gradients. -/
  get_eq : ∀ I J, stiffness.get I J = (e.points.map fun q => (e.properties.law.contraction
    e.properties.lame (deformation x q) (q.gradients.get I) (q.gradients.get J)).scale q.weight).sum
  symmetric : ∀ i j, stiffness.flatten.get i j = stiffness.flatten.get j i

/-- The stiffness matrix of an element of any shape and material is complete at all positions of the
nodes, also where only copies have been written. -/
theorem hasStiffness_computeData (e : Element S K) (x : Vector (Vec3 K) S.nodeCount) :
    ∃ half, e.HasStiffness x half (e.computeData x).stiffness := by
  let law := e.properties.law
  let lame := e.properties.lame
  let states := e.points.map fun q => (q, deformation x q)
  have hStiffness : (e.computeData x).stiffness =
      (accumulatedStiffness law lame states).symmetricOfUpper := by
    simp only [computeData, zip_map_self]
    rfl
  have hCompleted : (e.computeData x).stiffness.flatten =
      (accumulatedStiffness law lame states).flatten.fillLower := by
    rw [hStiffness, Dense.flatten_symmetricOfUpper]
  use (accumulatedStiffness law lame states).flatten
  constructor
  case accumulated => exact accumulatedEntries_eq law lame states
  case half_blockAt =>
    intro I J
    rw [Dense.blockAt_flatten]
    by_cases hUpper : I ≤ J
    · rw [if_pos hUpper, get_accumulatedStiffness law lame states hUpper, integratedContraction,
        List.map_map]
      rfl
    · rw [if_neg hUpper, get_accumulatedStiffness_of_lt law lame states (lt_of_not_ge hUpper)]
  case completed => exact hCompleted
  case get_eq => exact e.get_stiffness x
  case symmetric =>
    intro i j
    rw [hCompleted]
    exact Dense.get_fillLower_comm _ i j

end Element

end Elastodynamics
