import Elastodynamics.Proofs.Denotation
import Elastodynamics.Proofs.Expansion
import Elastodynamics.Element.Response
import Elastodynamics.Model.Evaluation
/-!
Freshness of the expanded copy. A block-sparse matrix keeps its compressed rows with a note whether
blocks may have changed since. The copy always has the layout of the pattern, so new values written
over the old ones are the compressed rows of the present blocks, and a copy without the note is
never stale. Tangent matrices are written by calls on the matrix, so their evaluation keeps this as
well.
-/
namespace Elastodynamics

open Sparse

namespace Sparse.BlockMatrix

variable {α : Type}

/-! ### Copies with the layout of the pattern -/

/-- New values turn the compressed rows of a matrix into those of any matrix with its pattern. -/
theorem refresh_toCsr {A B : BlockMatrix α} (h : B.pattern = A.pattern) :
    B.toCsr.refresh A.scalarRows = A.toCsr := by
  apply Csr.refresh_ofRows
  rw [map_columns_scalarRows, map_columns_scalarRows, dim, dim, size, size, h]

/-- That the expanded copy, if there is one, was made from blocks at the same places, and from the
present blocks unless it is noted as stale. -/
structure Current (A : BlockMatrix α) : Prop where
  layout : ∀ csr, A.csr = some csr → ∃ B : BlockMatrix α, B.pattern = A.pattern ∧ csr = B.toCsr
  values : ∀ csr, A.csr = some csr → A.stale = false → csr = A.toCsr

variable {A A' : BlockMatrix α}

/-- New values bring the copy up to date, whatever blocks it was made from. -/
theorem Current.refresh (hA : A.Current) {csr : Csr α} (h : A.csr = some csr) :
    csr.refresh A.scalarRows = A.toCsr := by
  obtain ⟨B, hPattern, rfl⟩ := hA.layout csr h
  exact refresh_toCsr hPattern

/-- A change of blocks that leaves the copy alone and notes it as stale keeps the copy current. -/
theorem Current.of_stale (hA : A.Current) (hPattern : A'.pattern = A.pattern)
    (hCsr : A'.csr = A.csr) (hStale : A'.stale = true) : A'.Current where
  layout := by
    intro csr h
    rw [hPattern]
    exact hA.layout csr (hCsr ▸ h)
  values := by
    intro csr _ hFresh
    rw [hStale] at hFresh
    cases hFresh

theorem Current.assemble (hA : A.Current) : A.assemble.Current := by
  have hNew : ({ A with csr := some A.toCsr, stale := false } : BlockMatrix α).Current :=
    ⟨fun csr h => ⟨A, rfl, (Option.some.inj h).symm⟩, fun csr h _ => (Option.some.inj h).symm⟩
  rw [BlockMatrix.assemble]
  split
  · exact hA
  · split
    · next csr h => exact (hA.refresh h).symm ▸ hNew
    · exact hNew

/-- A current copy that is not stale holds the compressed rows of the present blocks. -/
theorem Current.assembledCsr_eq (hA : A.Current) {csr : Csr α} (h : A.assembledCsr = some csr) :
    csr = A.toCsr := by
  rw [assembledCsr, isAssembled] at h
  split at h
  · next hAssembled =>
      simp only [Bool.and_eq_true, Bool.not_eq_true'] at hAssembled
      exact hA.values csr h hAssembled.1
  · cases h

/-- After it has been assembled a matrix has an expanded copy of its blocks. -/
theorem Current.assembledCsr_assemble (hA : A.Current) :
    A.assemble.assembledCsr = some A.toCsr := by
  cases hAssembled : A.isAssembled with
  | true =>
      obtain ⟨csr, hCsr⟩ : ∃ csr, A.assembledCsr = some csr := by
        rw [assembledCsr, if_pos hAssembled, ← Option.isSome_iff_exists]
        simp only [isAssembled, Bool.and_eq_true] at hAssembled
        exact hAssembled.2
      rw [BlockMatrix.assemble, if_pos hAssembled, hCsr, hA.assembledCsr_eq hCsr]
  | false =>
      rw [BlockMatrix.assemble, if_neg (Bool.eq_false_iff.mp hAssembled)]
      split
      · next csr h =>
          rw [hA.refresh h]
          rfl
      · rfl

/-! ### Calls -/

variable [Scalar α]

theorem current_ofPattern (P : Pattern) : (ofPattern P : BlockMatrix α).Current := ⟨nofun, nofun⟩

theorem csr_of_addUpper {l : List (Coord × Mat3 α)} (h : A.addUpper l = .ok A') :
    A'.csr = A.csr := by
  induction l generalizing A with
  | nil =>
      cases h
      rfl
  | cons e l ih =>
      obtain ⟨⟨i, j⟩, B⟩ := e
      rw [addUpper] at h
      split at h
      · exact ih h
      · obtain ⟨k, _, h⟩ := bind_eq_ok_iff.mp h
        have hRest := ih h
        exact hRest

/-- Every call keeps the expanded copy current. -/
theorem Current.apply (hA : A.Current) {c : Call α} (h : c.apply A = .ok A') : A'.Current := by
  have hPattern := Call.pattern_of_apply h
  cases c with
  | setZero =>
      cases h
      exact hA.of_stale rfl rfl rfl
  | addToBlock i j B =>
      obtain ⟨k, _, rfl⟩ := addToBlock_eq_ok_iff.mp h
      exact hA.of_stale rfl rfl rfl
  | addToBlocks indices L =>
      obtain ⟨_, _, B, hAdd, rfl⟩ := addUpper_of_addToBlocks h
      have hCsr : B.csr = A.csr := csr_of_addUpper hAdd
      exact hA.of_stale hPattern hCsr rfl
  | assemble =>
      cases h
      exact hA.assemble

theorem Current.runCalls (hA : A.Current) (calls : List (Call α)) : (A.runCalls calls).Current :=
  runCalls_of_apply hA (fun _ _ _ hA => hA.apply) calls

end Sparse.BlockMatrix

/-! ### Tangent matrices are written by calls -/

open BlockMatrix

variable {α : Type} [Scalar α]

theorem Model.addStored_eq_runCalls (first : Nat) (l : List (Coord × Mat3 α)) (A : BlockMatrix α) :
    ∃ calls, (addBodies.addStored first l A).1 = A.runCalls calls := by
  induction l generalizing A with
  | nil => exact ⟨[], rfl⟩
  | cons e l ih =>
      obtain ⟨⟨i, j⟩, B⟩ := e
      rw [addBodies.addStored]
      cases hAdd : A.addToBlock (first + i) (first + j) B with
      | error err => exact ⟨[], rfl⟩
      | ok A' =>
          obtain ⟨calls, hCalls⟩ := ih A'
          have hCall : (Call.addToBlock (first + i) (first + j) B).apply A = .ok A' := hAdd
          exact ⟨_, hCalls.trans (runCalls_cons hCall calls).symm⟩

theorem Model.addBodies_eq_runCalls (first : Nat) (l : List (Nat × BlockMatrix α))
    (A : BlockMatrix α) :
    ∃ calls, (addBodies first l A).1 = A.runCalls calls := by
  induction l generalizing first A with
  | nil => exact ⟨[], by rw [addBodies]; rfl⟩
  | cons p l ih =>
      obtain ⟨n, B⟩ := p
      rw [addBodies]
      obtain ⟨calls, hCalls⟩ := addStored_eq_runCalls first B.stored A
      cases hStored : addBodies.addStored first B.stored A with
      | mk A' status =>
          rw [hStored] at hCalls
          cases status with
          | error e => exact ⟨calls, hCalls⟩
          | ok u =>
              obtain ⟨rest, hRest⟩ := ih (first + n) A'
              refine ⟨calls ++ rest, ?_⟩
              rw [runCalls_append, ← hCalls]
              exact hRest

variable [ElementFamily α]

theorem TypedModel.addTangents_eq_runCalls {κ : Kind α}
    (l : List ((kind κ).Element × Dense (Mat3 α) (kind κ).nodeCount (kind κ).nodeCount))
    (A : BlockMatrix α) : ∃ calls, (addTangents l A).1 = A.runCalls calls := by
  induction l generalizing A with
  | nil => exact ⟨[], rfl⟩
  | cons p l ih =>
      obtain ⟨e, L⟩ := p
      rw [addTangents]
      cases hAdd : A.addToBlocks ((kind κ).nodes e).toList L.flatten with
      | error err => exact ⟨[], rfl⟩
      | ok A' =>
          obtain ⟨calls, hCalls⟩ := ih A'
          have hCall : (Call.addToBlocks ((kind κ).nodes e).toList L.flatten).apply A = .ok A' :=
            hAdd
          exact ⟨_, hCalls.trans (runCalls_cons hCall calls).symm⟩

namespace Model

/-- An evaluation of a tangent matrix, of any model in any state, changes the matrix by calls on it,
whether it succeeds or not. -/
theorem calcTangent_eq_runCalls (m : Model α) (s : State α) (w : Weights α) (A : BlockMatrix α) :
    ∃ calls, (m.calcTangent s w A).2.1 = A.runCalls calls := by
  rw [calcTangent]
  split
  · exact ⟨[], rfl⟩
  · cases m with
    | typed m =>
        simp only [tangent, TypedModel.tangent]
        split
        · exact ⟨[], rfl⟩
        · split
          · exact ⟨[], rfl⟩
          · exact TypedModel.addTangents_eq_runCalls _ A
    | composite id P bodies =>
        simp only [tangent]
        split
        · exact ⟨[], rfl⟩
        · exact addBodies_eq_runCalls 0 _ A

end Model

/-! ### Programs that change a matrix -/

namespace Sparse.BlockMatrix

/-- What a program may do with a matrix. -/
inductive Change (α : Type) [ElementFamily α] where
  | call (c : Call α)
  /-- A copy has the blocks, the expanded copy and the note of its original. -/
  | clone
  | calcTangent (m : Model α) (s : State α) (w : Weights α)

/-- The matrix after a change, whether it succeeds or not. -/
def Change.apply : Change α → BlockMatrix α → BlockMatrix α
  | call c, A => (c.run A).1
  | clone, A => A
  | calcTangent m s w, A => (m.calcTangent s w A).2.1

/-- The matrix after a list of changes. -/
def runChanges (A : BlockMatrix α) (changes : List (Change α)) : BlockMatrix α :=
  changes.foldl (fun A c => c.apply A) A

/-- Changes of a matrix are calls on it. -/
theorem runChanges_eq_runCalls (A : BlockMatrix α) (changes : List (Change α)) :
    ∃ calls, A.runChanges changes = A.runCalls calls := by
  induction changes generalizing A with
  | nil => exact ⟨[], rfl⟩
  | cons c changes ih =>
      obtain ⟨first, hFirst⟩ : ∃ calls, c.apply A = A.runCalls calls := by
        cases c with
        | call c => exact ⟨[c], rfl⟩
        | clone => exact ⟨[], rfl⟩
        | calcTangent m s w => exact m.calcTangent_eq_runCalls s w A
      obtain ⟨rest, hRest⟩ := ih (c.apply A)
      refine ⟨first ++ rest, ?_⟩
      rw [runCalls_append, ← hFirst]
      exact hRest

/-- The expanded copy is never stale. After any changes of a matrix that began with a pattern,
rejected ones among them, the copy that the matrix gives out has the compressed rows of its present
blocks; once it has been assembled it gives one out; and writing the entries, as they are visited,
over the values of an old copy gives what a traversal builds anew. -/
theorem assembledCsr_runChanges {P : Pattern} {changes : List (Change α)} {A : BlockMatrix α}
    (hA : (ofPattern P).runChanges changes = A) :
    (∀ csr, A.assembledCsr = some csr → csr.offsets = A.toCsr.offsets ∧
      csr.columns = A.toCsr.columns ∧ csr.values = A.toCsr.values ∧ csr.size = A.toCsr.size) ∧
    A.assemble.assembledCsr = some A.toCsr ∧
    A.assemble.toCsr = A.toCsr ∧
    ∀ csr, A.csr = some csr → Csr.build? A.dim A.expandedEntries = some
      { csr with values := Csr.overwrite csr.values (A.expandedEntries.map fun e => e.2.2) } := by
  have hCurrent : A.Current := by
    obtain ⟨calls, hCalls⟩ := runChanges_eq_runCalls (ofPattern P) changes
    rw [← hA, hCalls]
    exact (current_ofPattern P).runCalls calls
  refine ⟨fun csr h => ?_, hCurrent.assembledCsr_assemble, ?_, fun csr h => ?_⟩
  · rw [hCurrent.assembledCsr_eq h]
    exact ⟨rfl, rfl, rfl, rfl⟩
  · exact (hCurrent.assemble.assembledCsr_eq hCurrent.assembledCsr_assemble).symm
  · rw [build?_expandedEntries, ← refresh_eq_overwrite, hCurrent.refresh h]

/-! ### A matrix that is assembled twice -/

/-- A model without nodes. -/
def nodeless : Model ℚ := .typed (TypedModel.ofConfig (κ := Shape.tet4) Config.default ⟨0⟩).1

/-- A block is added before each of two assemblies. The last addition and the evaluation are
rejected. -/
def wedgeChanges : List (Change ℚ) :=
  [.call (.addToBlock 1 0 ⟨1, 2, 3, 4, 5, 6, 7, 8, 9⟩), .call .assemble, .clone,
    .call (.addToBlock 1 0 ⟨1, 0, 0, 0, 1, 0, 0, 0, 1⟩),
    .call (.addToBlock 0 2 ⟨1, 2, 3, 4, 5, 6, 7, 8, 9⟩),
    .calcTangent nodeless nodeless.makeState ⟨1, 1, 1⟩, .call .assemble]

/-- The second assembly writes both blocks into the copy that the first one made. -/
theorem assembledCsr_runChanges_wedge : ∃ (A : BlockMatrix ℚ) (csr : Csr ℚ),
    (ofPattern wedge).runChanges wedgeChanges = A ∧ A.assembledCsr = some csr ∧
    csr.values = A.toCsr.values ∧ csr.values.take 6 = [0, 0, 0, 2, 4, 7] := by
  obtain ⟨A, hA⟩ : ∃ A, (ofPattern wedge).runChanges wedgeChanges = A := ⟨_, rfl⟩
  have hRow : A.assembledCsr.map (fun csr => csr.values.take 6) = some [0, 0, 0, 2, 4, 7] := by
    rw [← hA]
    decide +kernel
  obtain ⟨csr, hCsr, hValues⟩ := Option.map_eq_some_iff.mp hRow
  exact ⟨A, csr, hA, hCsr, ((assembledCsr_runChanges hA).1 csr hCsr).2.2.1, hValues⟩

end Sparse.BlockMatrix

end Elastodynamics
