import Elastodynamics.Proofs.Model.BlockDiagonal
import Elastodynamics.Proofs.Model.Computed
import Elastodynamics.Proofs.Workspace.Reachable
/-!
Models of bodies as direct sums. Bodies that a program has made always make a model, and over exact
scalars a model of bodies gives what its bodies give: residuals are concatenated, tangent matrices
stand along the diagonal, and energies are added. The bodies may be models of bodies themselves.
-/
namespace Elastodynamics

open Model Sparse

/-! ### States of the bodies -/

namespace Model

section

variable {α : Type} [ElementFamily α]

/-- That there is one state for each body, which belongs to the system of the body and holds its
piece of a motion: the components after those of the bodies before it. -/
structure Split (bodies : List (Model α)) (x : Motion α) (states : List (State α)) : Prop where
  length : states.length = bodies.length
  piece : ∀ (k : Nat) b t offset, bodies[k]? = some b → states[k]? = some t →
    (nodeOffsets 0 bodies)[k]? = some offset → t.system.id = b.systemId ∧
      ∀ p, t.motion.get p = (x.get p).extract (3 * offset) (3 * offset + b.numDofs)

/-- Results of an evaluation of every body in its state are results for the pieces of the motion. -/
theorem Split.pieces {bodies : List (Model α)} {x : Motion α} {states : List (State α)}
    (h : Split bodies x states) {β γ : Type} {R : Model α → Motion α → β → Prop}
    {evaluate : Model α → State α → γ} {success : β → γ}
    (hEvaluate : ∀ b ∈ bodies, ∀ t ∈ states, t.system.id = b.systemId → ∀ y,
      evaluate b t = success y → R b t.motion y) {results : List β}
    (hResults : (bodies.zip states).map (fun p => evaluate p.1 p.2) = results.map success) :
    Pieces R bodies x results := by
  have hLength : results.length = bodies.length := by
    have hSame := congrArg List.length hResults
    rw [List.length_map, List.length_map, List.length_zip, h.length, Nat.min_self] at hSame
    exact hSame.symm
  rw [← x.drop_zero]
  refine pieces_of_getElem? 0 hLength fun k b y offset hBody hResult hOffset => ?_
  obtain ⟨hk, _⟩ := List.getElem?_eq_some_iff.mp hBody
  obtain ⟨t, hState⟩ : ∃ t, states[k]? = some t :=
    ⟨states.get ⟨k, h.length ▸ hk⟩, List.getElem?_eq_getElem _⟩
  obtain ⟨hOwner, hPiece⟩ := h.piece k b t offset hBody hState hOffset
  have hMotion : (x.drop (3 * offset)).take b.numDofs = t.motion := by
    apply Motion.ext_get
    intro p
    rw [Motion.get_take_drop, hPiece p]
  have hValue : evaluate b t = success y := by
    have hSame := congrArg (fun l => l[k]?) hResults
    simp only [List.getElem?_map, (List.getElem?_zip_eq_some (z := (b, t))).mpr ⟨hBody, hState⟩,
      hResult, Option.map_some, Option.some_inj] at hSame
    exact hSame
  rw [hMotion]
  exact hEvaluate b (List.mem_of_getElem? hBody) t (List.mem_of_getElem? hState) hOwner y hValue

end

section

variable {α : Type} [Scalar α] [ElementFamily α]

/-! ### Evaluation of the whole -/

variable {id : SystemId} {P : Pattern} {bodies : List (Model α)} {s : State α}
  {states : List (State α)}

/-- If every body has a residual, the residual of the whole is all of them, one after the other. -/
theorem calcResidual_composite (hWhole : (composite id P bodies).Coherent s.memo)
    (hId : s.system.id = id)
    (hBodies : ∀ b ∈ bodies, ∀ t ∈ states, t.system.id = b.systemId → b.Coherent t.memo)
    (hSplit : Split bodies s.motion states) {results : List (Array α)}
    (hResults : (bodies.zip states).map (fun p => (p.1.computeResidual p.2).2) = results.map .ok)
    {r : Array α} (hr : r.size = (composite id P bodies).numDofs) :
    ((composite id P bodies).calcResidual s r).2 = (results.foldr (· ++ ·) #[], .ok ()) := by
  have hBody : ∀ b ∈ bodies, ∀ t ∈ states, t.system.id = b.systemId → ∀ y,
      (b.computeResidual t).2 = .ok y →
        ∀ r, r.size = b.numDofs → b.residualOf t.motion r = (y, .ok ()) :=
    fun b hb t ht hOwner y hy =>
      residualOf_of_computeResidual hOwner (hBodies b hb t ht hOwner) hy
  have hPieces := hSplit.pieces (R := fun b x y =>
    ∀ r, r.size = b.numDofs → b.residualOf x r = (y, .ok ())) hBody hResults
  have hCheck : (composite id P bodies).checkResidual s.contents r = .ok () := by
    rw [checkResidual, checkState_of_coherent hId hWhole]
    exact checkVector_eq_ok_iff.mpr hr
  obtain ⟨memo', hEval, _⟩ := calcResidual_eq hWhole hCheck
  rw [hEval, residualOf]
  exact bodyResidualsOf_of_pieces hPieces hr

end

variable {K : Type} [ExactScalar K] [ElementFamily K] {id : SystemId} {P : Pattern}
  {bodies : List (Model K)} {s : State K} {states : List (State K)}

/-- If every body has a tangent matrix, each is added to its block on the diagonal. -/
theorem calcTangent_composite (hm : (composite id P bodies).WellFormed)
    (hWhole : (composite id P bodies).Coherent s.memo) (hId : s.system.id = id)
    (hBodies : ∀ b ∈ bodies, ∀ t ∈ states, t.system.id = b.systemId → b.Coherent t.memo)
    (hSplit : Split bodies s.motion states) {w : Weights K} {results : List (BlockMatrix K)}
    (hResults : (bodies.zip states).map (fun p => (p.1.calcTangent p.2 w p.1.makeTangent).2) =
      results.map fun B => (B, .ok ()))
    {A : BlockMatrix K} (hA : (composite id P bodies).checkMatrix A = .ok ()) :
    ∃ A', ((composite id P bodies).calcTangent s w A).2 = (A', .ok ()) ∧
      A'.pattern = A.pattern ∧
      (∀ (k : Nat) b B offset, bodies[k]? = some b → results[k]? = some B →
        (nodeOffsets 0 bodies)[k]? = some offset → ∀ i < b.numNodes, ∀ j < b.numNodes,
          A'.toDense.blockAt (offset + i) (offset + j) =
            A.toDense.blockAt (offset + i) (offset + j) + B.toDense.blockAt i j) ∧
      ∀ i j, (∀ (k : Nat) b offset, bodies[k]? = some b →
          (nodeOffsets 0 bodies)[k]? = some offset →
          ¬((offset ≤ i ∧ i < offset + b.numNodes) ∧ offset ≤ j ∧ j < offset + b.numNodes)) →
        A'.toDense.blockAt i j = A.toDense.blockAt i j := by
  have hBody : ∀ b ∈ bodies, ∀ t ∈ states, t.system.id = b.systemId → ∀ B,
      (b.calcTangent t w b.makeTangent).2 = (B, .ok ()) →
        b.tangentOf t.motion w b.makeTangent = (B, .ok ()) :=
    fun b hb t ht hOwner B hB =>
      (tangentOf_eq_calcTangent (hm.body hb) hOwner (hBodies b hb t ht hOwner) w).trans hB
  have hPieces := hSplit.pieces (R := fun b x B => b.tangentOf x w b.makeTangent = (B, .ok ()))
    hBody hResults
  have hCheck : (composite id P bodies).checkTangent s.contents A = .ok () := by
    rw [checkTangent, checkState_of_coherent hId hWhole]
    exact hA
  obtain ⟨memo', hEval, _⟩ := calcTangent_eq hm hWhole (w := w) hCheck
  obtain ⟨A', hTangent, hPattern, hInside, hOutside⟩ :=
    block_tangentOf_composite hm hPieces (checkMatrix_eq_ok_iff.mp hA).2
  simp only [BlockMatrix.blockAt_toDense]
  refine ⟨A', ?_, hPattern, fun k b B offset hb hB hOffset i hi j _ => ?_, hOutside⟩
  · rw [hEval]
    exact hTangent
  · exact hInside k b B offset hb hB hOffset i hi j

/-- If every body has an energy, the energy of the whole is their sum. -/
theorem calcEnergy_composite (hWhole : (composite id P bodies).Coherent s.memo)
    (hId : s.system.id = id)
    (hBodies : ∀ b ∈ bodies, ∀ t ∈ states, t.system.id = b.systemId → b.Coherent t.memo)
    (hSplit : Split bodies s.motion states) {results : List K}
    (hResults : (bodies.zip states).map (fun p => (p.1.calcEnergy p.2).2) = results.map .ok) :
    ((composite id P bodies).calcEnergy s).2 = .ok results.sum := by
  have hBody : ∀ b ∈ bodies, ∀ t ∈ states, t.system.id = b.systemId → ∀ y,
      (b.calcEnergy t).2 = .ok y → b.energyOf t.motion = .ok y :=
    fun b hb t ht hOwner y hy =>
      (energyOf_eq_calcEnergy hOwner (hBodies b hb t ht hOwner)).trans hy
  have hPieces := hSplit.pieces (R := fun b x y => b.energyOf x = .ok y) hBody hResults
  have hCheck : (composite id P bodies).checkEnergy s.contents = .ok () :=
    checkState_of_coherent hId hWhole _
  obtain ⟨memo', hEval, _⟩ := calcEnergy_eq hWhole hCheck
  rw [hEval, energyOf, bodyEnergiesOf_of_pieces hPieces, List.sum_eq_foldl]

end Model

/-! ### Programs -/

variable {K : Type} [ExactScalar K] [ElementFamily K]

namespace Workspace

/-- That a model of bodies is the direct sum of the bodies, in all states of a workspace. -/
structure DirectSum (W : Workspace K) (id : SystemId) (P : Pattern) (bodies : List (Model K)) :
    Prop where
  /-- The nodes of a body follow those of the bodies before it. -/
  nodes : (composite id P bodies).numNodes = (bodies.map numNodes).sum ∧
    (composite id P bodies).system.numNodes = (bodies.map numNodes).sum ∧
    ∀ k < bodies.length, (nodeOffsets 0 bodies)[k]? = some ((bodies.take k).map numNodes).sum
  elements : (composite id P bodies).numElements = (bodies.map numElements).sum
  referencePositions : (composite id P bodies).system.referencePositions =
    (bodies.map fun b => b.system.referencePositions).foldr (· ++ ·) #[]
  /-- The blocks are those of the bodies, moved along the diagonal, and no others. -/
  pattern : P.size = (bodies.map numNodes).sum ∧ ∀ c, c ∈ P.entries ↔
    ∃ (k : Nat) (b : Model K) (offset : Nat), bodies[k]? = some b ∧
      (nodeOffsets 0 bodies)[k]? = some offset ∧
        ∃ e ∈ b.pattern.entries, (offset + e.1, offset + e.2) = c
  /-- If every body has a residual, the vector is overwritten with all of them. -/
  residual : ∀ s ∈ W.states, s.system.id = id → ∀ states, (∀ t ∈ states, t ∈ W.states) →
    Split bodies s.motion states → ∀ results : List (Array K),
      (bodies.zip states).map (fun p => (p.1.computeResidual p.2).2) = results.map .ok →
      ∀ r, r.size = (composite id P bodies).numDofs →
        ((composite id P bodies).calcResidual s r).2 = (results.foldr (· ++ ·) #[], .ok ())
  /-- If every body has a tangent matrix, each is added to its block of the dense matrix on the
  diagonal, and the rest of the matrix is kept. -/
  tangent : ∀ s ∈ W.states, s.system.id = id → ∀ states, (∀ t ∈ states, t ∈ W.states) →
    Split bodies s.motion states → ∀ w, ∀ results : List (BlockMatrix K),
      (bodies.zip states).map (fun p => (p.1.calcTangent p.2 w p.1.makeTangent).2) =
        results.map (fun B => (B, .ok ())) →
      ∀ A, (composite id P bodies).checkMatrix A = .ok () → ∃ A',
        ((composite id P bodies).calcTangent s w A).2 = (A', .ok ()) ∧ A'.pattern = A.pattern ∧
        (∀ (k : Nat) b B offset, bodies[k]? = some b → results[k]? = some B →
          (nodeOffsets 0 bodies)[k]? = some offset → ∀ i < b.numNodes, ∀ j < b.numNodes,
            A'.toDense.blockAt (offset + i) (offset + j) =
              A.toDense.blockAt (offset + i) (offset + j) + B.toDense.blockAt i j) ∧
        ∀ i j, (∀ (k : Nat) b offset, bodies[k]? = some b →
            (nodeOffsets 0 bodies)[k]? = some offset →
            ¬((offset ≤ i ∧ i < offset + b.numNodes) ∧ offset ≤ j ∧ j < offset + b.numNodes)) →
          A'.toDense.blockAt i j = A.toDense.blockAt i j
  /-- If every body has an energy, the energy is their sum. -/
  energy : ∀ s ∈ W.states, s.system.id = id → ∀ states, (∀ t ∈ states, t ∈ W.states) →
    Split bodies s.motion states → ∀ results : List K,
      (bodies.zip states).map (fun p => (p.1.calcEnergy p.2).2) = results.map .ok →
        ((composite id P bodies).calcEnergy s).2 = .ok results.sum

variable {W : Workspace K} {id : SystemId} {P : Pattern} {bodies : List (Model K)}

/-- Every model of bodies is the direct sum of the bodies. -/
theorem Reachable.directSum (hW : W.Reachable) (hm : composite id P bodies ∈ W.models) :
    W.DirectSum id P bodies := by
  have hWellFormed := hW.sound.wellFormed _ hm
  have hBodies {states : List (State K)} (hStates : ∀ t ∈ states, t ∈ W.states) :
      ∀ b ∈ bodies, ∀ t ∈ states, t.system.id = b.systemId → b.Coherent t.memo :=
    fun b hb t ht hOwner => (hW.sound.coherent b (hW.body_mem hm b hb) t (hStates t ht) hOwner).2
  have hWhole {s : State K} (hs : s ∈ W.states) (hId : s.system.id = id) :
      (composite id P bodies).Coherent s.memo :=
    (hW.sound.coherent _ hm s hs hId).2
  refine ⟨?_, ?_, ?_, ?_, ?_, ?_, ?_⟩
  · -- nodes
    have hDofs := (composite id P bodies).numDofs_system
    rw [← totalNodes_eq_sum, System.numNodes, hDofs, numDofs, numNodes]
    refine ⟨rfl, Nat.mul_div_cancel_left _ (Nat.succ_pos 2), fun k hk => ?_⟩
    rw [getElem?_nodeOffsets 0 hk, Nat.zero_add, totalNodes_eq_sum]
  · rw [numElements, totalElements_eq_sum]
  · rw [system, systems_eq_map, System.ofBodies, List.map_map]
    rfl
  · have hSize := hWellFormed.size_pattern
    rw [pattern, numNodes, totalNodes_eq_sum] at hSize
    exact ⟨hSize, fun c => hWellFormed.mem_pattern_composite.trans mem_blockEntries_iff⟩
  · intro s hs hId states hStates hSplit results hResults r hr
    exact calcResidual_composite (hWhole hs hId) hId (hBodies hStates) hSplit hResults hr
  · intro s hs hId states hStates hSplit w results hResults A hA
    exact calcTangent_composite hWellFormed (hWhole hs hId) hId (hBodies hStates) hSplit hResults hA
  · intro s hs hId states hStates hSplit results hResults
    exact calcEnergy_composite (hWhole hs hId) hId (hBodies hStates) hSplit hResults

/-- Models that a program has made can always be made the bodies of another one, and every model of
bodies of a program, at any depth, is the direct sum of its bodies. -/
theorem composite_directSum (hW : W.Reachable) :
    (∀ bodies, (∀ b ∈ bodies, b ∈ W.models) → ∃ P, ofBodies bodies W.ids =
      (.ok (composite W.ids.fresh.1 P bodies), W.ids.fresh.2)) ∧
    ∀ id P bodies, composite id P bodies ∈ W.models → W.DirectSum id P bodies := by
  constructor
  · intro bodies hBodies
    obtain ⟨P, hOk, _⟩ :=
      ofBodies_of_wellFormed (fun b hb => hW.sound.wellFormed b (hBodies b hb)) W.ids
    exact ⟨P, hOk⟩
  · intro id P bodies hm
    exact hW.directSum hm

theorem mem_pair :
    ∀ t ∈ [cornerModel.makeState, cornerModel.makeState], t ∈ pairWorkspace.states := by
  intro t ht
  rcases List.mem_cons.mp ht with rfl | ht
  · exact List.mem_cons_of_mem _ List.mem_cons_self
  · rw [List.mem_singleton.mp ht]
    exact List.mem_cons_of_mem _ List.mem_cons_self

/-- The new state of both tetrahedra holds their new states one after the other. -/
theorem split_pair : Split [cornerModel, cornerModel] pair.makeState.motion
    [cornerModel.makeState, cornerModel.makeState] := by
  have hId : cornerModel.makeState.system.id = cornerModel.systemId := cornerModel.id_system
  refine ⟨rfl, fun k b t offset hBody hState hOffset => ?_⟩
  obtain ⟨hk, _⟩ := List.getElem?_eq_some_iff.mp hBody
  rcases Nat.le_one_iff_eq_zero_or_eq_one.mp (Nat.le_of_lt_succ hk) with rfl | rfl
  · cases hBody
    cases hState
    cases hOffset
    exact ⟨hId, fun p => by cases p <;> decide +kernel⟩
  · cases hBody
    cases hState
    cases hOffset
    exact ⟨hId, fun p => by cases p <;> decide +kernel⟩

/-- The two tetrahedra make a model. At rest its residual is that of one tetrahedron twice, written
over a vector of sevens; its matrix has that of a tetrahedron in the second place; and its energy is
twice the energy of one. -/
theorem composite_directSum_pair : ∃ P y B z,
    ofBodies [cornerModel, cornerModel] corner.ids =
      (.ok (composite corner.ids.fresh.1 P [cornerModel, cornerModel]), corner.ids.fresh.2) ∧
    (cornerModel.computeResidual cornerModel.makeState).2 = .ok y ∧
    (pair.calcResidual pair.makeState (Array.replicate 24 7)).2 = (y ++ y, .ok ()) ∧
    (cornerModel.calcTangent cornerModel.makeState ⟨1, 1, 1⟩ cornerModel.makeTangent).2 =
      (B, .ok ()) ∧
    (∃ A', (pair.calcTangent pair.makeState ⟨1, 1, 1⟩ pair.makeTangent).2 = (A', .ok ()) ∧
      ∀ i < 4, ∀ j < 4, A'.toDense.blockAt (4 + i) (4 + j) = B.toDense.blockAt i j) ∧
    (cornerModel.calcEnergy cornerModel.makeState).2 = .ok z ∧
    (pair.calcEnergy pair.makeState).2 = .ok (z + z) := by
  have hUnchecked : cornerModel.Unchecked :=
    .typed (Config.rejectsNone_of_unchecked (by decide +kernel))
  have hWellFormed := reachable_corner.sound.wellFormed cornerModel List.mem_cons_self
  have hCoherent := cornerModel.coherent_initial
  have hId : cornerModel.makeState.system.id = cornerModel.systemId := cornerModel.id_system
  obtain ⟨P, hPair⟩ := (composite_directSum reachable_corner).1 _ mem_corner
  have hSum := (composite_directSum reachable_pair).2 _ _ _ List.mem_cons_self
  have hOwner := pair.id_system
  -- a tetrahedron has a residual, a matrix and an energy
  obtain ⟨y, hResidual⟩ := hUnchecked.computeResidual hId hCoherent
  obtain ⟨B, hTangent⟩ :=
    hUnchecked.exists_tangent hWellFormed cornerModel.makeState.motion ⟨1, 1, 1⟩
  obtain ⟨z, hEnergy⟩ := hUnchecked.energyOf cornerModel.makeState.motion
  rw [tangentOf_eq_calcTangent hWellFormed hId hCoherent] at hTangent
  rw [energyOf_eq_calcEnergy hId hCoherent] at hEnergy
  have hNodes : cornerModel.numNodes = 4 := by decide +kernel
  have hDofs : (Array.replicate 24 (7 : ℚ)).size = pair.numDofs := by decide +kernel
  refine ⟨P, y, B, z, hPair, hResidual, ?_, hTangent, ?_, hEnergy, ?_⟩
  · have hVector := hSum.residual _ List.mem_cons_self hOwner _ mem_pair split_pair [y, y]
      (by simp [hResidual]) (Array.replicate 24 7) hDofs
    refine hVector.trans ?_
    simp
  · obtain ⟨A', hMatrix, _, hInside, _⟩ := hSum.tangent _ List.mem_cons_self hOwner _ mem_pair
      split_pair ⟨1, 1, 1⟩ [B, B] (by simp [hTangent]) pair.makeTangent
      (checkMatrix_makeTangent (reachable_pair.sound.wellFormed _ List.mem_cons_self))
    refine ⟨A', hMatrix, fun i hi j hj => ?_⟩
    have hSecond := hInside 1 cornerModel B 4 rfl rfl (by decide +kernel) i (hNodes ▸ hi) j
      (hNodes ▸ hj)
    rw [hSecond]
    simp [BlockMatrix.blockAt_toDense, makeTangent, BlockMatrix.block_ofPattern]
  · have hTotal := hSum.energy _ List.mem_cons_self hOwner _ mem_pair split_pair [z, z]
      (by simp [hEnergy])
    refine hTotal.trans ?_
    simp

end Workspace

end Elastodynamics
