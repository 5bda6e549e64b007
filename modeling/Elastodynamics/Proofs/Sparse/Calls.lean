import Elastodynamics.Proofs.Outcome
import Elastodynamics.Proofs.Sparse.Addition
/-!
Calls on a block-sparse matrix, as they change it in place. An addition of a dense matrix writes its
blocks one after the other, so a write that is rejected in the middle would leave the blocks before
it. The blocks are looked up before the first one is written, and then every write succeeds: a call
either does all that it has to do, or it is rejected and changes nothing.
-/
namespace Elastodynamics.Sparse.BlockMatrix

variable {α : Type} [Scalar α]

/-! ### Writes in place -/

/-- Adds a list of blocks in place, of which those below the diagonal are left out. The first block
that is not stored ends the writes, and what has been added before it stays. -/
def writeUpper (A : BlockMatrix α) : List (Coord × Mat3 α) → BlockMatrix α × Except Error Unit
  | [] => (A, .ok ())
  | ((i, j), B) :: l =>
    if j < i then A.writeUpper l
    else
      match A.storageIndex i j with
      | .error e => (A, .error e)
      | .ok k => (A.addStored k (contribution i j B)).writeUpper l

/-- Adds a dense symmetric matrix in place: checks its shape, looks up every block, and writes. -/
def addToBlocksInPlace {m n : Nat} (A : BlockMatrix α) (indices : List Nat) (L : Dense α m n) :
    BlockMatrix α × Except Error Unit :=
  let expected := (3 * indices.length, 3 * indices.length)
  if (m, n) ≠ expected then (A, .error (.sizeMismatch expected (m, n)))
  else
    match A.checkStored (Pattern.couplings indices) with
    | .error e => (A, .error e)
    | .ok () =>
      match A.writeUpper (placedBlocks indices L) with
      | (A', .error e) => (A', .error e)
      | (A', .ok ()) => ({ A' with stale := true }, .ok ())

/-- A call that may change a matrix. -/
inductive Call (α : Type) where
  | setZero
  | addToBlock (i j : Nat) (B : Mat3 α)
  | addToBlocks {m n : Nat} (indices : List Nat) (L : Dense α m n)
  | assemble

namespace Call

/-- The matrix after a call, or why the call is rejected. -/
def apply : Call α → BlockMatrix α → Except Error (BlockMatrix α)
  | setZero, A => .ok A.setZero
  | addToBlock i j B, A => A.addToBlock i j B
  | addToBlocks indices L, A => A.addToBlocks indices L
  | assemble, A => .ok A.assemble

/-- The matrix that a call leaves behind, whether it succeeds or not. -/
def run : Call α → BlockMatrix α → BlockMatrix α × Except Error Unit
  | setZero, A => (A.setZero, .ok ())
  | addToBlock i j B, A =>
    match A.storageIndex i j with
    | .error e => (A, .error e)
    | .ok k => ({ A.addStored k (contribution i j B) with stale := true }, .ok ())
  | addToBlocks indices L, A => A.addToBlocksInPlace indices L
  | assemble, A => (A.assemble, .ok ())

end Call

/-- The matrix after a list of calls, accepted or not. -/
def runCalls (A : BlockMatrix α) (calls : List (Call α)) : BlockMatrix α :=
  calls.foldl (fun A c => (c.run A).1) A

/-- What is left of a matrix when a change is made as a whole or rejected. -/
def settle (A : BlockMatrix α) : Except Error (BlockMatrix α) → BlockMatrix α × Except Error Unit
  | .ok A' => (A', .ok ())
  | .error e => (A, .error e)

/-! ### What is rejected -/

/-- Whether there is no block at `(i, j)`: the place is outside of the matrix, or the pattern does
not have it. -/
def Missing (A : BlockMatrix α) (i j : Nat) : Prop :=
  A.size ≤ i ∨ A.size ≤ j ∨ Coord.upper (i, j) ∉ A.pattern.entries

/-- Whether a call must be rejected: a dense matrix has the wrong shape, or a block that the call
needs is missing. -/
def Call.Rejected (A : BlockMatrix α) : Call α → Prop
  | addToBlock i j _ => A.Missing i j
  | @addToBlocks _ m n indices _ =>
    (m, n) ≠ (3 * indices.length, 3 * indices.length) ∨
      ∃ i ∈ indices, ∃ j ∈ indices, A.Missing i j
  | _ => False

variable {A : BlockMatrix α}

omit [Scalar α] in
theorem missing_iff {i j : Nat} : A.Missing i j ↔ ¬ A.pattern.contains i j = true := by
  rw [Missing, ← Pattern.contains_iff]
  constructor
  · rintro (hRow | hCol | hStored) hContains
    · exact absurd (Pattern.lt_size_of_contains hContains).1 (Nat.not_lt_of_le hRow)
    · exact absurd (Pattern.lt_size_of_contains hContains).2 (Nat.not_lt_of_le hCol)
    · exact hStored hContains
  · exact fun h => .inr (.inr h)

omit [Scalar α] in
/-- A place has no storage index exactly if its block is missing. -/
theorem storageIndex_error_iff {i j : Nat} :
    (∃ e, A.storageIndex i j = .error e) ↔ A.Missing i j := by
  rw [missing_iff]
  constructor
  · rintro ⟨e, hError⟩ hContains
    obtain ⟨k, hk⟩ := storageIndex_of_contains hContains
    rw [hk] at hError
    cases hError
  · intro hMissing
    cases hIndex : A.storageIndex i j with
    | error e => exact ⟨e, rfl⟩
    | ok k =>
        refine absurd ?_ hMissing
        rw [Pattern.contains, storageIndex_eq_ok_iff.mp hIndex]
        rfl

omit [Scalar α] in
/-- The check of a list of places fails exactly if one of the blocks is missing. -/
theorem checkStored_error_iff {l : List Coord} :
    (∃ e, A.checkStored l = .error e) ↔ ∃ c ∈ l, A.Missing c.1 c.2 := by
  constructor
  · rintro ⟨e, hError⟩
    by_contra hNone
    push Not at hNone
    have hOk : A.checkStored l = .ok () := checkStored_of_contains fun c hc => by
      have hStored := hNone c hc
      rwa [missing_iff, not_not] at hStored
    rw [hOk] at hError
    cases hError
  · rintro ⟨c, hc, hMissing⟩
    induction l with
    | nil => cases hc
    | cons d l ih =>
        rw [checkStored]
        cases hIndex : A.storageIndex d.1 d.2 with
        | error e => exact ⟨e, rfl⟩
        | ok k =>
            rcases List.mem_cons.mp hc with rfl | hc
            · obtain ⟨e, he⟩ := storageIndex_error_iff.mpr hMissing
              rw [hIndex] at he
              cases he
            · exact ih hc

omit [Scalar α] in
/-- Some pair of coupled indices has no block exactly if some pair of indices, in any order, has
none. -/
theorem missing_couplings_iff {indices : List Nat} :
    (∃ c ∈ Pattern.couplings indices, A.Missing c.1 c.2) ↔
      ∃ i ∈ indices, ∃ j ∈ indices, A.Missing i j := by
  constructor
  · rintro ⟨⟨i, j⟩, hc, hMissing⟩
    obtain ⟨hi, hj⟩ := Pattern.mem_of_mem_couplings hc
    exact ⟨i, hi, j, hj, hMissing⟩
  · rintro ⟨i, hi, j, hj, hMissing⟩
    rcases Pattern.couplings_of_mem hi hj with hc | hc
    · exact ⟨(i, j), hc, hMissing⟩
    · refine ⟨(j, i), hc, ?_⟩
      rw [missing_iff] at hMissing ⊢
      rwa [Pattern.contains_comm]

theorem addToBlock_error_iff {i j : Nat} {B : Mat3 α} :
    (∃ e, A.addToBlock i j B = .error e) ↔ A.Missing i j := by
  rw [← storageIndex_error_iff, addToBlock]
  constructor
  · rintro ⟨e, hError⟩
    rcases bind_eq_error_iff.mp hError with hIndex | ⟨k, _, hRest⟩
    · exact ⟨e, hIndex⟩
    · cases hRest
  · rintro ⟨e, hIndex⟩
    exact ⟨e, bind_eq_error_iff.mpr (.inl hIndex)⟩

section Dense

variable {m n : Nat} {indices : List Nat} {L : Dense α m n}

/-- An addition of a dense matrix fails exactly if its shape is wrong or one of the blocks of its
indices is missing. -/
theorem addToBlocks_error_iff :
    (∃ e, A.addToBlocks indices L = .error e) ↔
      (m, n) ≠ (3 * indices.length, 3 * indices.length) ∨
        ∃ i ∈ indices, ∃ j ∈ indices, A.Missing i j := by
  constructor
  · rintro ⟨e, hError⟩
    by_contra hNone
    push Not at hNone
    obtain ⟨hShape, hStored⟩ := hNone
    obtain ⟨A', hOk⟩ := addToBlocks_of_contains (A := A) (L := L) (congrArg Prod.fst hShape)
      (congrArg Prod.snd hShape) fun i hi j hj => by
        have hFound := hStored i hi j hj
        rwa [missing_iff, not_not] at hFound
    rw [hOk] at hError
    cases hError
  · rintro (hShape | hMissing)
    · refine ⟨.sizeMismatch (3 * indices.length, 3 * indices.length) (m, n), ?_⟩
      rw [addToBlocks, if_pos hShape]
      rfl
    · cases hResult : A.addToBlocks indices L with
      | error e => exact ⟨e, rfl⟩
      | ok A' =>
          -- what succeeds has passed the check of the coupled indices
          obtain ⟨e, hCheck⟩ := checkStored_error_iff.mpr (missing_couplings_iff.mpr hMissing)
          simp only [addToBlocks, hCheck] at hResult
          split at hResult
          · cases hResult
          · cases hResult

/-! ### All or nothing -/

/-- Writes in place are the additions of the list, if none of them is rejected. -/
theorem writeUpper_of_addUpper {l : List (Coord × Mat3 α)} {A' : BlockMatrix α}
    (h : A.addUpper l = .ok A') : A.writeUpper l = (A', .ok ()) := by
  induction l generalizing A with
  | nil =>
      cases h
      rfl
  | cons e l ih =>
      obtain ⟨⟨i, j⟩, B⟩ := e
      rw [addUpper] at h
      rw [writeUpper]
      split
      · next hBelow =>
          rw [if_pos hBelow] at h
          exact ih h
      · next hAbove =>
          rw [if_neg hAbove] at h
          obtain ⟨k, hIndex, h⟩ := bind_eq_ok_iff.mp h
          rw [hIndex]
          exact ih h

/-- An addition of a dense matrix in place is made as a whole, or it is rejected before the first
write. -/
theorem addToBlocksInPlace_eq :
    A.addToBlocksInPlace indices L = A.settle (A.addToBlocks indices L) := by
  simp only [addToBlocksInPlace, addToBlocks]
  split
  · rfl
  · next hShape =>
      rw [not_not] at hShape
      cases hCheck : A.checkStored (Pattern.couplings indices) with
      | error e => rfl
      | ok u =>
          -- all blocks are stored, so no write is rejected
          have hStored : ∀ e ∈ placedBlocks indices L,
              A.pattern.contains e.1.1 e.1.2 = true := by
            intro e he
            obtain ⟨hi, hj⟩ := mem_of_mem_placedBlocks he
            by_contra hNot
            obtain ⟨err, hError⟩ := checkStored_error_iff.mpr (missing_couplings_iff.mpr
              ⟨e.1.1, hi, e.1.2, hj, missing_iff.mpr hNot⟩)
            rw [hCheck] at hError
            cases hError
          obtain ⟨A', hAdd⟩ := addUpper_of_contains hStored
          rw [hAdd, writeUpper_of_addUpper hAdd]
          rfl

end Dense

namespace Call

/-- Every call is made as a whole or changes nothing. -/
theorem run_eq_settle (c : Call α) (A : BlockMatrix α) : c.run A = A.settle (c.apply A) := by
  cases c with
  | setZero => rfl
  | addToBlock i j B =>
      rw [run, apply, BlockMatrix.addToBlock]
      cases A.storageIndex i j <;> rfl
  | addToBlocks indices L => exact addToBlocksInPlace_eq
  | assemble => rfl

/-- A call fails exactly if it must be rejected. -/
theorem apply_error_iff (c : Call α) (A : BlockMatrix α) :
    (∃ e, c.apply A = .error e) ↔ c.Rejected A := by
  cases c with
  | setZero =>
      refine ⟨?_, False.elim⟩
      rintro ⟨e, h⟩
      cases h
  | addToBlock i j B => exact addToBlock_error_iff
  | addToBlocks indices L => exact addToBlocks_error_iff
  | assemble =>
      refine ⟨?_, False.elim⟩
      rintro ⟨e, h⟩
      cases h

/-! ### Runs -/

/-- A property that all changes keep is kept by a call, whether it succeeds or not. -/
theorem run_of_apply {motive : BlockMatrix α → Prop} {c : Call α} {A : BlockMatrix α}
    (hA : motive A) (hApply : ∀ A', c.apply A = .ok A' → motive A') : motive (c.run A).1 := by
  rw [run_eq_settle]
  cases hResult : c.apply A with
  | error e => exact hA
  | ok A' => exact hApply A' hResult

theorem pattern_of_apply {c : Call α} {A A' : BlockMatrix α} (h : c.apply A = .ok A') :
    A'.pattern = A.pattern := by
  cases c with
  | setZero =>
      cases h
      rfl
  | addToBlock i j B => exact pattern_of_addToBlock h
  | addToBlocks indices L => exact pattern_of_addToBlocks h
  | assemble =>
      cases h
      rw [BlockMatrix.assemble]
      split
      · rfl
      · split <;> rfl

end Call

/-- A property that all changes keep holds after every list of calls. -/
theorem runCalls_of_apply {motive : BlockMatrix α → Prop} (hA : motive A)
    (hApply : ∀ (c : Call α) A A', motive A → c.apply A = .ok A' → motive A')
    (calls : List (Call α)) : motive (A.runCalls calls) := by
  induction calls generalizing A with
  | nil => exact hA
  | cons c calls ih => exact ih (Call.run_of_apply hA fun A' => hApply c A A' hA)

theorem runCalls_append (A : BlockMatrix α) (calls calls' : List (Call α)) :
    A.runCalls (calls ++ calls') = (A.runCalls calls).runCalls calls' :=
  List.foldl_append

/-- A call that succeeds comes before the others. -/
theorem runCalls_cons {c : Call α} {A' : BlockMatrix α} (h : c.apply A = .ok A')
    (calls : List (Call α)) : A.runCalls (c :: calls) = A'.runCalls calls := by
  rw [runCalls, List.foldl_cons, Call.run_eq_settle, h]
  rfl

theorem pattern_runCalls (A : BlockMatrix α) (calls : List (Call α)) :
    (A.runCalls calls).pattern = A.pattern :=
  runCalls_of_apply (motive := fun A' => A'.pattern = A.pattern) rfl
    (fun _ _ _ hSame h => (Call.pattern_of_apply h).trans hSame) calls

end Elastodynamics.Sparse.BlockMatrix
