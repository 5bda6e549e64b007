import Elastodynamics.Proofs.Algebra.Exact
import Elastodynamics.Element.Response
import Elastodynamics.Proofs.Outcome
/-!
The matrices of an element over exact scalars. The weighted tangent matrix is the weighted sum of
the stiffness, damping and mass matrices, although terms with zero coefficients are left out when it
is computed. It is symmetric: the stiffness matrix because it is completed by symmetry, and the mass
matrix because its entries are integrals of products.
-/
namespace Elastodynamics.Element

section

variable {α : Type} [Scalar α] {S : Shape} {e : Element S α} {X : Vector (Vec3 α) S.nodeCount}

/-- A quadrature point has a Jacobian with an inverse, which carries the gradients over. -/
theorem quadraturePoint_eq_ok {w : α} {ξ : Vec3 α} {q : QuadraturePoint S.nodeCount α}
    (h : quadraturePoint X w ξ = .ok q) :
    ∃ B, (fieldGradient X (S.gradients ξ)).inverse? = some B ∧
      q = { weight := w * Scalar.abs (fieldGradient X (S.gradients ξ)).det
            gradients := (S.gradients ξ).map B.transpose.mulVec } := by
  rw [quadraturePoint] at h
  split at h
  · cases h
  · split at h
    · cases h
    · next B hInverse =>
        cases h
        exact ⟨B, hInverse, rfl⟩

theorem massPoint_eq_ok {density w : α} {ξ : Vec3 α} {q : α × Vector α S.nodeCount}
    (h : massPoint X density w ξ = .ok q) :
    q = (w * Scalar.abs (fieldGradient X (S.gradients ξ)).det * density, S.basis ξ) := by
  rw [massPoint] at h
  split at h
  · cases h
  · cases h
    rfl

/-- The matrix of the masses shared by nodes, as it is lumped. -/
def massOf {n : Nat} (lumping : MassLumping) (masses : List (α × Vector α n)) : Dense α n n :=
  match lumping with
  | .consistent => consistentMass masses
  | .rowSum => (consistentMass masses).lumped

variable [Quadrature.Rules α]

/-- Where the quadrature points and the masses of an element with the vertices `X` come from. -/
structure MadeFrom (e : Element S α) (X : Vector (Vec3 α) S.nodeCount)
    (masses : List (α × Vector α S.nodeCount)) : Prop where
  exists_quadraturePoint : ∀ q ∈ e.points, ∃ p ∈ S.stiffnessRule.nodes,
    quadraturePoint X p.1 p.2 = .ok q
  exists_massPoint : ∀ q ∈ masses, ∃ p ∈ S.massRule.nodes,
    massPoint X e.properties.density p.1 p.2 = .ok q
  mass_eq : e.mass = massOf e.properties.lumping masses

theorem exists_toList_eq {β : Type} {n : Nat} {l : List β} (h : l.length = n) :
    ∃ v : Vector β n, v.toList = l :=
  ⟨⟨l.toArray, h⟩, rfl⟩

/-- Making an element is making its quadrature points and then its masses. -/
theorem ofVertices_toList (nodes : Vector Nat S.nodeCount) (X : Vector (Vec3 α) S.nodeCount)
    (properties : Properties α) : ofVertices nodes X.toList properties = do
      let points ← S.stiffnessRule.nodes.mapM fun p => quadraturePoint X p.1 p.2
      let masses ← S.massRule.nodes.mapM fun p => massPoint X properties.density p.1 p.2
      return { nodes, points, mass := massOf properties.lumping masses, properties } := by
  rw [ofVertices, dif_pos X.length_toList]
  rfl

theorem ofVertices_of_length_ne (nodes : Vector Nat S.nodeCount) {vertices : List (Vec3 α)}
    (h : vertices.length ≠ S.nodeCount) (properties : Properties α) :
    ofVertices nodes vertices properties =
      .error (.wrongNodeCount S.nodeCount vertices.length) := by
  rw [ofVertices, dif_neg h]

/-- An element is made exactly if all of its quadrature points and masses are. -/
theorem ofVertices_eq_ok_iff {nodes : Vector Nat S.nodeCount} {vertices : List (Vec3 α)}
    {properties : Properties α} : ofVertices nodes vertices properties = .ok e ↔
      ∃ X : Vector (Vec3 α) S.nodeCount, X.toList = vertices ∧
      ∃ points, (S.stiffnessRule.nodes.mapM fun p => quadraturePoint X p.1 p.2) = .ok points ∧
      ∃ masses, (S.massRule.nodes.mapM fun p => massPoint X properties.density p.1 p.2) =
        .ok masses ∧
      e = { nodes, points, mass := massOf properties.lumping masses, properties } := by
  constructor
  · intro h
    by_cases hLength : vertices.length = S.nodeCount
    · obtain ⟨X, rfl⟩ := exists_toList_eq hLength
      rw [ofVertices_toList] at h
      obtain ⟨points, hPoints, h⟩ := bind_eq_ok_iff.mp h
      obtain ⟨masses, hMasses, h⟩ := bind_eq_ok_iff.mp h
      cases h
      exact ⟨X, rfl, points, hPoints, masses, hMasses, rfl⟩
    · rw [ofVertices_of_length_ne nodes hLength] at h
      cases h
  · rintro ⟨X, rfl, points, hPoints, masses, hMasses, rfl⟩
    rw [ofVertices_toList]
    exact bind_eq_ok_iff.mpr ⟨points, hPoints, bind_eq_ok_iff.mpr ⟨masses, hMasses, rfl⟩⟩

/-- An element has the nodes and the properties that it was made from, and quadrature points and
masses of its vertices. -/
theorem ofVertices_eq_ok {nodes : Vector Nat S.nodeCount} {vertices : List (Vec3 α)}
    {properties : Properties α} (h : ofVertices nodes vertices properties = .ok e) :
    e.nodes = nodes ∧ e.properties = properties ∧
      ∃ X masses, X.toList = vertices ∧ e.MadeFrom X masses := by
  obtain ⟨X, hVertices, points, hPoints, masses, hMasses, rfl⟩ := ofVertices_eq_ok_iff.mp h
  refine ⟨rfl, rfl, X, masses, hVertices, ?_, ?_, rfl⟩
  · exact fun q hq => exists_of_mem_mapM hPoints hq
  · exact fun q hq => exists_of_mem_mapM hMasses hq

end

/-- A matrix that is completed from its upper triangle is symmetric. -/
theorem transpose_symmetricOfUpper {α : Type} {n : Nat} (A : Dense (Mat3 α) n n) (a b : Fin n) :
    (A.symmetricOfUpper.get a b).transpose = A.symmetricOfUpper.get b a := by
  simp only [Dense.symmetricOfUpper, Dense.get_ofFn]
  rcases lt_trichotomy a b with hlt | rfl | hgt
  · rw [if_pos hlt, if_neg (lt_asymm hlt), if_pos hlt]
  · rw [if_neg (lt_irrefl a), if_neg (lt_irrefl a)]
    rfl
  · rw [if_neg (lt_asymm hgt), if_pos hgt, if_pos hgt, Mat3.transpose_transpose]

variable {K : Type} [ExactScalar K] {S : Shape}

/-- The stiffness matrix: what one times it adds to zero. -/
def stiffnessMatrix (data : ElementData S.nodeCount K) :
    Dense (Mat3 K) S.nodeCount S.nodeCount :=
  addStiffness data 1 (.repeated 0)

/-- The mass matrix: what one times it adds to zero. -/
def massMatrix (e : Element S K) : Dense (Mat3 K) S.nodeCount S.nodeCount :=
  e.addMass 1 (.repeated 0)

/-- The damping matrix: what one times it adds to zero. -/
def dampingMatrix (e : Element S K) (data : ElementData S.nodeCount K) :
    Dense (Mat3 K) S.nodeCount S.nodeCount :=
  e.addDamping data 1 (.repeated 0)

/-- The weighted sum of the stiffness, damping and mass matrices. -/
def tangentMatrix (e : Element S K) (data : ElementData S.nodeCount K) (w : Weights K) :
    Dense (Mat3 K) S.nodeCount S.nodeCount :=
  .ofFn fun a b => ((stiffnessMatrix data).get a b).scale w.stiffness
    + ((e.dampingMatrix data).get a b).scale w.damping + (e.massMatrix.get a b).scale w.mass

variable (e : Element S K) (data : ElementData S.nodeCount K) (a b : Fin S.nodeCount)

/-! ### The matrices in terms of the data -/

theorem get_stiffnessMatrix : (stiffnessMatrix data).get a b = data.stiffness.get a b := by
  rw [stiffnessMatrix, addStiffness, Dense.get_ofFn, Dense.get_repeated, zero_add, Mat3.scale_one]

theorem get_massMatrix : e.massMatrix.get a b = Mat3.diagonal (e.mass.get a b) := by
  rw [massMatrix, addMass, Dense.get_ofFn, Dense.get_repeated, Mat3.addDiagonal_eq, zero_add,
    one_mul]

theorem get_addStiffness (s : K) (A : Dense (Mat3 K) S.nodeCount S.nodeCount) :
    (addStiffness data s A).get a b = A.get a b + ((stiffnessMatrix data).get a b).scale s := by
  rw [addStiffness, Dense.get_ofFn, get_stiffnessMatrix]

theorem get_addMass (s : K) (A : Dense (Mat3 K) S.nodeCount S.nodeCount) :
    (e.addMass s A).get a b = A.get a b + (e.massMatrix.get a b).scale s := by
  rw [addMass, Dense.get_ofFn, get_massMatrix, Mat3.addDiagonal_eq, Mat3.diagonal_scale, mul_comm]

/-- A term that vanishes with its coefficient may be left out when the coefficient is zero. -/
private theorem get_unless_zero {A B : Dense (Mat3 K) S.nodeCount S.nodeCount} {X : Mat3 K} {t : K}
    {a b : Fin S.nodeCount} (hAdd : B.get a b = A.get a b + X) (hZero : t = 0 → X = 0) :
    (if Scalar.isZero t then A else B).get a b = A.get a b + X := by
  by_cases ht : t = 0
  · rw [if_pos (Scalar.isZero_iff.mpr ht), hZero ht, add_zero]
  · rw [if_neg fun h => ht (Scalar.isZero_iff.mp h), hAdd]

private theorem scale_of_eq_zero {M : Mat3 K} {s : K} (h : s = 0) : M.scale s = 0 := by
  rw [h, Mat3.scale_zero]

theorem get_addDamping (s : K) (A : Dense (Mat3 K) S.nodeCount S.nodeCount) :
    (e.addDamping data s A).get a b = A.get a b
      + (e.massMatrix.get a b).scale (s * e.properties.damping.massCoefficient)
      + ((stiffnessMatrix data).get a b).scale
          (s * e.properties.damping.stiffnessCoefficient) := by
  rw [addDamping,
    get_unless_zero (get_addStiffness _ _ _ _ _) fun h => scale_of_eq_zero (by rw [h, mul_zero]),
    get_unless_zero (get_addMass _ _ _ _ _) fun h => scale_of_eq_zero (by rw [h, mul_zero])]

/-- The damping matrix is `α M + β K`. -/
theorem get_dampingMatrix : (e.dampingMatrix data).get a b =
    (e.massMatrix.get a b).scale e.properties.damping.massCoefficient
      + ((stiffnessMatrix data).get a b).scale e.properties.damping.stiffnessCoefficient := by
  rw [dampingMatrix, get_addDamping, Dense.get_repeated, zero_add, one_mul, one_mul]

/-- Adding a multiple of the damping matrix adds this multiple of each block. -/
theorem get_addDamping_eq_scale (s : K) (A : Dense (Mat3 K) S.nodeCount S.nodeCount) :
    (e.addDamping data s A).get a b = A.get a b + ((e.dampingMatrix data).get a b).scale s := by
  rw [get_addDamping, get_dampingMatrix, Mat3.add_scale, Mat3.scale_scale, Mat3.scale_scale,
    add_assoc, mul_comm s, mul_comm s]

/-- The tangent matrix that is computed is the weighted sum of the three matrices. -/
theorem addTangent_zero [Quadrature.Rules K] (w : Weights K) :
    S.solid.addTangent e data w (.repeated 0) = e.tangentMatrix data w := by
  refine Dense.ext fun a b => ?_
  rw [ElementKind.addTangent,
    get_unless_zero (get_addMass _ _ _ _ _) scale_of_eq_zero,
    get_unless_zero (get_addDamping_eq_scale _ _ _ _ _ _) scale_of_eq_zero,
    get_unless_zero (get_addStiffness _ _ _ _ _) scale_of_eq_zero]
  rw [Dense.get_repeated, zero_add, tangentMatrix, Dense.get_ofFn]

/-! ### Symmetry -/

theorem transpose_stiffnessMatrix (x : Vector (Vec3 K) S.nodeCount) :
    ((stiffnessMatrix (e.computeData x)).get a b).transpose =
      (stiffnessMatrix (e.computeData x)).get b a := by
  rw [get_stiffnessMatrix, get_stiffnessMatrix]
  exact transpose_symmetricOfUpper _ a b

theorem get_consistentMass_comm {n : Nat} (points : List (K × Vector K n)) (a b : Fin n) :
    (consistentMass points).get a b = (consistentMass points).get b a := by
  simp only [consistentMass, Dense.get_ofFn, mul_comm]

theorem get_lumped_comm {n : Nat} (A : Dense K n n) (a b : Fin n) :
    A.lumped.get a b = A.lumped.get b a := by
  simp only [Dense.lumped, Dense.get_ofFn, eq_comm (a := b)]
  split
  · next h => rw [h]
  · rfl

variable {e} [Quadrature.Rules K]

/-- Two nodes of an element share the same mass in both orders. -/
theorem Constructed.get_mass_comm (h : e.Constructed) : e.mass.get a b = e.mass.get b a := by
  obtain ⟨nodes, vertices, properties, hMade⟩ := h
  obtain ⟨_, _, X, masses, _, hParts⟩ := ofVertices_eq_ok hMade
  rw [hParts.mass_eq, massOf.eq_def]
  cases e.properties.lumping with
  | consistent => exact get_consistentMass_comm masses a b
  | rowSum => exact get_lumped_comm (consistentMass masses) a b

theorem Constructed.transpose_massMatrix (h : e.Constructed) :
    (e.massMatrix.get a b).transpose = e.massMatrix.get b a := by
  rw [get_massMatrix, get_massMatrix, h.get_mass_comm, Mat3.transpose_diagonal]

/-- The weighted tangent matrix of an element is symmetric. -/
theorem Constructed.transpose_tangentMatrix (h : e.Constructed) (x : Vector (Vec3 K) S.nodeCount)
    (w : Weights K) : ((e.tangentMatrix (e.computeData x) w).get a b).transpose =
      (e.tangentMatrix (e.computeData x) w).get b a := by
  simp only [tangentMatrix, Dense.get_ofFn, get_dampingMatrix, Mat3.transpose_add,
    Mat3.transpose_scale, h.transpose_massMatrix, transpose_stiffnessMatrix]

end Elastodynamics.Element
