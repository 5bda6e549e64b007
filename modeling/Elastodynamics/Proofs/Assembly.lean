import Elastodynamics.Proofs.Element.Matrices
import Elastodynamics.Proofs.Workspace.Outcomes
/-!
Assembly of tangent matrices. Over exact scalars, what an evaluation adds to a matrix is the sum of
the element matrices, each node block of an element at the rows and the columns of its two nodes.
-/
namespace Elastodynamics

open Model Sparse

variable {K : Type} [ExactScalar K]

namespace Dense

variable {n : Nat} (L : Dense (Mat3 K) n n) {nodes : Vector Nat n}

/-- What a matrix of an element with the given nodes stands for at global block `(i, j)`: its block
`(a, b)` where node `a` of the element is `i` and node `b` is `j`. -/
def scattered (nodes : Vector Nat n) (i j : Nat) : Mat3 K :=
  ∑ a, ∑ b, if nodes.get a = i ∧ nodes.get b = j then L.get a b else 0

/-- Nothing is scattered to two nodes unless the element has both. -/
theorem scattered_of_not_mem {i j : Nat} (h : ¬(i ∈ nodes.toList ∧ j ∈ nodes.toList)) :
    L.scattered nodes i j = 0 := by
  have hMem (a : Fin n) : nodes.get a ∈ nodes.toList :=
    Vector.mem_toList_iff.mpr (Vector.getElem_mem a.isLt)
  apply Finset.sum_eq_zero
  intro a _
  apply Finset.sum_eq_zero
  intro b _
  rw [if_neg]
  rintro ⟨rfl, rfl⟩
  exact h ⟨hMem a, hMem b⟩

variable {L}

/-- A symmetric matrix is added as it is scattered. -/
theorem block_addToBlocks (hSymmetric : ∀ a b, (L.get a b).transpose = L.get b a)
    {A A' : BlockMatrix K} (h : A.addToBlocks nodes.toList L.flatten = .ok A') (i j : Nat) :
    A'.block i j = A.block i j + L.scattered nodes i j := by
  have hLength : nodes.toList.length = n := Vector.length_toList
  have hBlock (a b : Fin nodes.toList.length) :
      L.flatten.blockAt a b = L.get (a.cast hLength) (b.cast hLength) :=
    Dense.blockAt_flatten L (a.cast hLength) (b.cast hLength)
  have hAdd := BlockMatrix.block_addToBlocks (fun a b => by
    rw [hBlock, hBlock]
    exact hSymmetric _ _) h i j
  rw [hAdd]
  congr 1
  refine Fintype.sum_equiv (finCongr hLength) _ _ fun a => ?_
  refine Fintype.sum_equiv (finCongr hLength) _ _ fun b => ?_
  rw [hBlock]
  rfl

end Dense

namespace TypedModel

theorem block_addTangents [ElementFamily K] {κ : Kind K}
    {l : List ((kind κ).Element × Dense (Mat3 K) (kind κ).nodeCount (kind κ).nodeCount)}
    (hSymmetric : ∀ p ∈ l, ∀ a b, (p.2.get a b).transpose = p.2.get b a) {A A' : BlockMatrix K}
    (h : addTangents l A = (A', .ok ())) (i j : Nat) : A'.block i j =
      A.block i j + (l.map fun p => p.2.scattered ((kind κ).nodes p.1) i j).sum := by
  induction l generalizing A with
  | nil =>
      cases h
      exact (add_zero _).symm
  | cons p l ih =>
      obtain ⟨e, L⟩ := p
      rw [addTangents] at h
      cases hAdd : A.addToBlocks ((kind κ).nodes e).toList L.flatten with
      | error err =>
          rw [hAdd] at h
          cases h
      | ok A₁ =>
          rw [hAdd] at h
          have hHead := Dense.block_addToBlocks (hSymmetric (e, L) List.mem_cons_self) hAdd i j
          rw [ih (fun p hp => hSymmetric p (List.mem_cons_of_mem _ hp)) h, hHead, List.map_cons,
            List.sum_cons, add_assoc]

variable [Quadrature.Rules K] {S : Shape}

/-- Solid elements of a model have been made from vertices. -/
theorem WellFormed.constructed_element {m : TypedModel K S} (hm : m.WellFormed) {e : Element S K}
    (he : e ∈ m.elements) : e.Constructed :=
  hm.constructed e he

/-- The weighted matrix of an element for given positions of all nodes. -/
def elementTangent (x : Array K) (w : Weights K) (e : Element S K) :
    Dense (Mat3 K) S.nodeCount S.nodeCount :=
  e.tangentMatrix (e.computeData (Stacked.gather e.nodes x)) w

/-- The tangent matrix of a model of elements is the sum of the matrices of its elements. -/
theorem block_tangentOf {m : TypedModel K S} (hm : m.WellFormed) {x : Motion K} {w : Weights K}
    {A A' : BlockMatrix K} (h : (Model.typed m).tangentOf x w A = (A', .ok ())) (i j : Nat) :
    A'.block i j = A.block i j + (m.elements.toList.map fun e : Element S K =>
      (elementTangent x.positions w e).scattered e.nodes i j).sum := by
  rw [Model.tangentOf] at h
  split at h
  · next hZero =>
      -- all weights are zero, and so is every element matrix
      cases h
      have hNone (e : Element S K) :
          (elementTangent x.positions w e).scattered e.nodes i j = 0 := by
        simp only [Weights.isZero, Bool.and_eq_true, Scalar.isZero_iff] at hZero
        simp only [Dense.scattered, elementTangent, Element.tangentMatrix, Dense.get_ofFn,
          hZero.1.1, hZero.1.2, hZero.2, Mat3.scale_zero, add_zero, ite_self,
          Finset.sum_const_zero]
      simp [hNone]
  · cases hLocal : localTangents m.config w 0 (m.elementsAt x) with
    | error e =>
        rw [hLocal] at h
        cases h
    | ok tangents =>
        rw [hLocal] at h
        have hTangents : tangents = m.elements.toList.map fun e : Element S K =>
            (e, elementTangent x.positions w e) := by
          rw [localTangents_eq_ok hLocal, elementsAt, List.map_map]
          refine List.map_congr_left fun e _ => ?_
          exact congrArg (Prod.mk e) (Element.addTangent_zero e _ w)
        subst hTangents
        rw [block_addTangents ?_ h, List.map_map]
        · rfl
        · intro p hp a b
          obtain ⟨e, he, rfl⟩ := List.mem_map.mp hp
          exact (hm.constructed_element (by simpa using he)).transpose_tangentMatrix a b _ w

end TypedModel

namespace Workspace

variable [Quadrature.Rules K] {S : Shape} {W : Workspace K}

/-- The tangent matrix of a model of elements is the sum of the scattered element matrices. After an
evaluation that succeeds, whatever has been done to the model and to the state before, each node
block of the dense matrix has grown by the blocks of the weighted element matrices at the present
positions whose nodes have its row and its column, in whatever order an element has its nodes. Other
blocks, and the pattern, have not changed. -/
theorem blockAt_calcTangent (hW : W.Reachable) {m : TypedModel K S}
    (hm : .typed m ∈ W.models) {s : State K} (hs : s ∈ W.states) {w : Weights K}
    {A A' : BlockMatrix K} (h : ((Model.typed m).calcTangent s w A).2 = (A', .ok ())) :
    A'.pattern = A.pattern ∧
    (∀ i j, A'.toDense.blockAt i j = A.toDense.blockAt i j +
      (m.elements.toList.map fun e : Element S K =>
        (TypedModel.elementTangent s.motion.positions w e).scattered e.nodes i j).sum) ∧
    (∀ i j, (∀ e : Element S K, e ∈ m.elements → ¬(i ∈ e.nodes.toList ∧ j ∈ e.nodes.toList)) →
      A'.toDense.blockAt i j = A.toDense.blockAt i j) ∧
    ∀ e : Element S K, e ∈ m.elements → ∀ data a b, (e.dampingMatrix data).get a b =
      (e.massMatrix.get a b).scale e.properties.damping.massCoefficient +
        ((Element.stiffnessMatrix data).get a b).scale
          e.properties.damping.stiffnessCoefficient := by
  have hWellFormed : m.WellFormed := by
    cases hW.sound.wellFormed _ hm with
    | typed h => exact h
  cases hCheck : (Model.typed m).checkTangent s.contents A with
  | error e =>
      rw [calcTangent, hCheck] at h
      cases h
  | ok u =>
      obtain ⟨hEval, hOutcome⟩ := calcTangent_of_checked hW hm hs (w := w) hCheck
      have hTangent := hEval.symm.trans h
      rw [hTangent] at hOutcome
      have hSum := TypedModel.block_tangentOf hWellFormed hTangent
      refine ⟨?_, fun i j => ?_, fun i j hNone => ?_, fun e _ data a b => ?_⟩
      · cases hOutcome with
        | added hPattern => exact hPattern
      · rw [BlockMatrix.blockAt_toDense, BlockMatrix.blockAt_toDense, hSum]
      · have hZero : ∀ e : Element S K, e ∈ m.elements.toList →
            (TypedModel.elementTangent s.motion.positions w e).scattered e.nodes i j = 0 :=
          fun e he => Dense.scattered_of_not_mem _ (hNone e (by simpa using he))
        rw [BlockMatrix.blockAt_toDense, BlockMatrix.blockAt_toDense, hSum,
          List.map_congr_left hZero]
        simp
      · exact e.get_dampingMatrix data a b

/-! ### Two tetrahedra on one face -/

/-- Two tetrahedra with a common face, whose nodes they have in different orders. -/
def kiteCommands : List (Command ℚ Shape.tet4) :=
  [.addCells [⟨0, 0, 0⟩, ⟨1, 0, 0⟩, ⟨0, 1, 0⟩, ⟨0, 0, 1⟩, ⟨1, 1, 1⟩]
      [#v[2, 0, 1, 3], #v[1, 4, 3, 2]]
    { law := .stVK, lame := ⟨1, 1⟩, density := 1, damping := ⟨1, 2⟩, lumping := .consistent },
   .build]

/-- The model of both tetrahedra, and the identities that are left. -/
def kiteSession : TypedModel ℚ Shape.tet4 × IdSupply :=
  emptyModel.session kiteCommands (TypedModel.ofConfig (κ := Shape.tet4) cornerConfig ⟨0⟩).2

def kiteModel : Model ℚ := .typed kiteSession.1

/-- A displacement of all nodes. -/
def kiteMove : Operation ℚ := .modify .positions fun i x => x * (i + 1)

/-- The models of the program with a new state and the one that it becomes when its nodes move. -/
def kite : Workspace ℚ where
  ids := kiteSession.2
  models := [kiteModel, .typed emptyModel]
  states := [kiteMove.apply kiteModel.makeState, kiteModel.makeState]

theorem reachable_kite : kite.Reachable := by
  have hNew := Reachable.step (.start ⟨0⟩) (.newModel _ Shape.tet4 cornerConfig)
  have hCommands : ∀ c ∈ kiteCommands, c.Constructed := by
    simp [kiteCommands]
  have hSession := Reachable.step hNew
    (.session _ (m := emptyModel) List.mem_cons_self hCommands)
  have hState := Reachable.step hSession (.makeState _ (m := kiteModel) List.mem_cons_self)
  exact .step hState (.operate _ List.mem_cons_self kiteMove nofun)

/-- A matrix with all blocks of five nodes. The one of the nodes at the two tips, which no element
has together, and one on the diagonal are not zero. -/
def kiteMatrix : BlockMatrix ℚ :=
  (BlockMatrix.ofPattern (.full 5)).runCalls
    [.addToBlock 4 0 ⟨1, 2, 3, 4, 5, 6, 7, 8, 9⟩, .addToBlock 2 2 ⟨1, 2, 3, 4, 5, 6, 7, 8, 9⟩,
      .assemble]

/-- Both tetrahedra add their matrices to what is in the matrix, and the block of the tips keeps its
value. -/
theorem blockAt_calcTangent_kite : kiteSession.1.elements.size = 2 ∧ ∃ A' : BlockMatrix ℚ,
    (kiteModel.calcTangent (kiteMove.apply kiteModel.makeState) ⟨1, 2, 3⟩ kiteMatrix).2 =
      (A', .ok ()) ∧
    (∀ i j, A'.toDense.blockAt i j = kiteMatrix.toDense.blockAt i j +
      (kiteSession.1.elements.toList.map fun e : Element .tet4 ℚ => (TypedModel.elementTangent
        (kiteMove.apply kiteModel.makeState).motion.positions ⟨1, 2, 3⟩ e).scattered
          e.nodes i j).sum) ∧
    A'.toDense.blockAt 0 4 = ⟨1, 4, 7, 2, 5, 8, 3, 6, 9⟩ := by
  have hModel : kiteModel ∈ kite.models := List.mem_cons_self
  have hState : kiteMove.apply kiteModel.makeState ∈ kite.states := List.mem_cons_self
  have hId : (kiteMove.apply kiteModel.makeState).system.id = kiteModel.systemId := by
    rw [Operation.system_apply]
    exact kiteModel.id_system
  have hNodes : kiteModel.numNodes = 5 := by decide +kernel
  have hPattern : kiteMatrix.pattern = .full kiteModel.numNodes :=
    (BlockMatrix.pattern_runCalls _ _).trans (congrArg Pattern.full hNodes.symm)
  have hCheck := reachable_kite.checkTangent_of_full hModel hState hId hPattern
  have hUnchecked : kiteModel.Unchecked :=
    .typed (Config.rejectsNone_of_unchecked (by decide +kernel))
  obtain ⟨_, _, hMatrix⟩ := bind_eq_ok_iff.mp hCheck
  obtain ⟨A', hTangent⟩ := hUnchecked.tangentOf (reachable_kite.sound.wellFormed _ hModel)
    (kiteMove.apply kiteModel.makeState).motion ⟨1, 2, 3⟩ (checkMatrix_eq_ok_iff.mp hMatrix).2
  have hEval := (calcTangent_of_checked reachable_kite hModel hState hCheck).1.trans hTangent
  obtain ⟨_, hSum, hOther, _⟩ := blockAt_calcTangent reachable_kite hModel hState hEval
  have hTips : ∀ e : Element .tet4 ℚ, e ∈ kiteSession.1.elements →
      ¬(0 ∈ e.nodes.toList ∧ 4 ∈ e.nodes.toList) := by
    decide +kernel
  refine ⟨by decide +kernel, A', hEval, hSum, (hOther 0 4 hTips).trans ?_⟩
  decide +kernel

end Workspace

end Elastodynamics
