import Elastodynamics.Proofs.Sparse.Calls
/-!
What block-sparse matrices stand for. Over exact scalars every call on a matrix has one effect on
its dense form: an addition adds the blocks it was given, each at its place and transposed on the
other side of the diagonal, and nothing else changes. So a matrix that was changed by calls only is
symmetric, and zero outside of its pattern.
-/
namespace Elastodynamics.Sparse.BlockMatrix

variable {K : Type} [ExactScalar K] {A A' : BlockMatrix K}

/-! ### The dense form -/

theorem get_toDense_of_not_mem {r c : Fin A.dim}
    (h : Coord.upper (r.val / 3, c.val / 3) ∉ A.pattern.entries) : A.toDense.get r c = 0 := by
  rw [← Pattern.contains_iff] at h
  rw [get_toDense, block_of_not_contains h]
  exact Mat3.get_ofFn (fun _ _ => 0) _ _

/-- The check of symmetry accepts every matrix with a symmetric diagonal. -/
theorem HasSymmetricDiagonal.isSymmetric (hA : A.HasSymmetricDiagonal) {tol : K}
    (hTol : Scalar.le 0 tol = true) : A.isSymmetric tol = true := by
  rw [BlockMatrix.isSymmetric, List.all_eq_true]
  intro e he
  rw [stored_eq_ofFn] at he
  obtain ⟨k, rfl⟩ := List.mem_ofFn.mp he
  by_cases hDiagonal : (A.pattern.entry k).1 = (A.pattern.entry k).2
  · have hZero : (A.blocks.get k - (A.blocks.get k).transpose).amax = 0 := by
      rw [hA.transpose_get hDiagonal, Mat3.sub_self, Mat3.amax_zero]
    simp [hZero, hTol]
  · simp [hDiagonal]

/-! ### Calls -/

theorem block_assemble (A : BlockMatrix K) (i j : Nat) : A.assemble.block i j = A.block i j := by
  rw [assemble]
  split
  · rfl
  · split <;> rfl

theorem HasSymmetricDiagonal.apply {c : Call K} (hA : A.HasSymmetricDiagonal)
    (h : c.apply A = .ok A') : A'.HasSymmetricDiagonal := by
  cases c with
  | setZero =>
      cases h
      intro i
      rw [block_setZero]
      rfl
  | addToBlock i j B => exact hA.addToBlock h
  | addToBlocks indices L => exact hA.addToBlocks h
  | assemble =>
      cases h
      intro i
      rw [block_assemble]
      exact hA i

theorem hasSymmetricDiagonal_runCalls (P : Pattern) (calls : List (Call K)) :
    ((ofPattern P).runCalls calls : BlockMatrix K).HasSymmetricDiagonal :=
  runCalls_of_apply (hasSymmetricDiagonal_ofPattern P) (fun _ _ _ => HasSymmetricDiagonal.apply)
    calls

/-- What the calls on a matrix mean. Whatever has been done to a matrix since it was made from a
pattern, every further call is made as a whole or is rejected, with the matrix left as it was, and
it is rejected exactly if a shape is wrong or a block it needs is missing. A block that is added off
the diagonal is added to the dense form with its transpose on the other side, a block on the
diagonal with its symmetric part, and a symmetric dense matrix block by block, in whatever order its
indices are and however often they repeat. The dense form is symmetric, as the check of symmetry
confirms for every tolerance, and zero outside of the pattern. -/
theorem toDense_runCalls {P : Pattern} {calls : List (Call K)}
    (hA : (ofPattern P).runCalls calls = A) :
    (∀ c : Call K, c.run A = A.settle (c.apply A) ∧
      ((∃ e, c.apply A = .error e) ↔ c.Rejected A) ∧
      ∀ A', c.apply A = .ok A' → A'.pattern = P) ∧
    (∀ i j B A', i ≠ j → A.addToBlock i j B = .ok A' → ∀ p q,
      A'.toDense.blockAt p q = A.toDense.blockAt p q + (if p = i ∧ q = j then B else 0) +
        (if p = j ∧ q = i then B.transpose else 0)) ∧
    (∀ i B A', A.addToBlock i i B = .ok A' → ∀ p q,
      A'.toDense.blockAt p q = A.toDense.blockAt p q +
        if p = i ∧ q = i then (B + B.transpose).scale (1 / 2) else 0) ∧
    (∀ n (indices : List Nat) (L : Dense K n n) A', (∀ r c, L.get r c = L.get c r) →
      A.addToBlocks indices L = .ok A' → ∀ p q,
      A'.toDense.blockAt p q = A.toDense.blockAt p q +
        ∑ a : Fin indices.length, ∑ b : Fin indices.length,
          if indices[a] = p ∧ indices[b] = q then L.blockAt a b else 0) ∧
    (∀ r c, A.setZero.toDense.get r c = 0) ∧
    (∀ p q, A.assemble.toDense.blockAt p q = A.toDense.blockAt p q) ∧
    (∀ r c, A.toDense.get r c = A.toDense.get c r) ∧
    (∀ tol, Scalar.le 0 tol = true → A.isSymmetric tol = true) ∧
    ∀ r c, Coord.upper (r.val / 3, c.val / 3) ∉ P.entries → A.toDense.get r c = 0 := by
  have hPattern : A.pattern = P := hA ▸ pattern_runCalls (ofPattern P) calls
  have hDiagonal : A.HasSymmetricDiagonal := hA ▸ hasSymmetricDiagonal_runCalls P calls
  refine ⟨fun c => ⟨c.run_eq_settle A, c.apply_error_iff A, fun A' h => ?_⟩,
    fun i j B A' hne h p q => ?_, fun i B A' h p q => ?_,
    fun n indices L A' hSymmetric h p q => ?_, fun r c => ?_, fun p q => ?_,
    hDiagonal.get_toDense_comm, fun tol => hDiagonal.isSymmetric, fun r c h => ?_⟩
  · exact (Call.pattern_of_apply h).trans hPattern
  · rw [blockAt_toDense, blockAt_toDense, block_addToBlock_of_ne hne h]
  · rw [blockAt_toDense, blockAt_toDense, block_addToBlock_self h, Mat3.symmetricPart,
      Scalar.half_eq]
  · rw [blockAt_toDense, blockAt_toDense]
    exact block_addToBlocks (fun a b => Dense.transpose_blockAt hSymmetric a b) h p q
  · rw [get_toDense, block_setZero]
    exact Mat3.get_ofFn (fun _ _ => 0) _ _
  · rw [blockAt_toDense, blockAt_toDense, block_assemble]
  · exact get_toDense_of_not_mem (hPattern ▸ h)

/-! ### A matrix with an empty block row -/

/-- Three block rows, of which the last one has no block. -/
def wedge : Pattern where
  size := 3
  entries := #[(0, 0), (0, 1), (1, 1)]
  sorted := by decide
  bounded := by decide

/-- Calls of every kind. The third one uses an index twice, and the fourth one is rejected. -/
def wedgeCalls : List (Call ℚ) :=
  [.addToBlock 1 0 ⟨1, 2, 3, 4, 5, 6, 7, 8, 9⟩, .setZero,
    .addToBlocks [1, 0, 1] (Dense.ofFn fun r c : Fin 9 => (r.val + c.val : ℚ)),
    .addToBlock 0 2 ⟨1, 2, 3, 4, 5, 6, 7, 8, 9⟩, .assemble]

/-- After these calls a block that is added below the diagonal is found, transposed, above it; a
block in the empty row is rejected again; and the matrix is symmetric. -/
theorem toDense_runCalls_wedge : ∃ A A' : BlockMatrix ℚ,
    (ofPattern wedge).runCalls wedgeCalls = A ∧
    A.addToBlock 1 0 ⟨1, 2, 3, 4, 5, 6, 7, 8, 9⟩ = .ok A' ∧
    A'.toDense.blockAt 0 1 = A.toDense.blockAt 0 1 + ⟨1, 4, 7, 2, 5, 8, 3, 6, 9⟩ ∧
    (∃ e, A.addToBlock 0 2 ⟨1, 2, 3, 4, 5, 6, 7, 8, 9⟩ = .error e) ∧
    A.isSymmetric 0 = true := by
  obtain ⟨A, hA⟩ : ∃ A, (ofPattern wedge).runCalls wedgeCalls = A := ⟨_, rfl⟩
  obtain ⟨hCalls, hOff, _, _, _, _, _, hSymmetric, _⟩ := toDense_runCalls hA
  have hPattern : A.pattern = wedge := hA ▸ pattern_runCalls (ofPattern wedge) wedgeCalls
  have hStored : A.pattern.contains 1 0 = true := by
    rw [hPattern]
    decide +kernel
  have hMissing : Coord.upper (0, 2) ∉ A.pattern.entries := by
    rw [hPattern]
    decide +kernel
  obtain ⟨A', hAdd⟩ := addToBlock_of_contains ⟨1, 2, 3, 4, 5, 6, 7, 8, 9⟩ hStored
  have hBlock := hOff 1 0 _ A' (by decide) hAdd 0 1
  refine ⟨A, A', hA, hAdd, ?_, (hCalls (.addToBlock 0 2 _)).2.1.mpr (.inr (.inr hMissing)),
    hSymmetric 0 (by decide)⟩
  simpa [Mat3.transpose] using hBlock

end Elastodynamics.Sparse.BlockMatrix
