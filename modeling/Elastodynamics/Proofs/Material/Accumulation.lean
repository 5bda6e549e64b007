import Elastodynamics.Proofs.Material.Contractions
import Elastodynamics.Proofs.Sparse.Dense
/-!
Accumulation of contractions in place. The blocks of a matrix of scalar entries are visited column
by column, in each column from the first block down to the one on the diagonal, and a multiple of
the contraction of the two gradients is added to each. The Saint Venant-Kirchhoff law has a loop of
its own, which computes what several contractions share before it is needed and takes the factor
into every term; both loops leave the same matrix.
-/
namespace Elastodynamics

/-- A loop over the numbers below `n` keeps what each of its steps keeps. The invariant is indexed
by the number of steps taken. -/
theorem invariant_of_loop {β : Type} {n : Nat} {step : β → Fin n → β} {P : Nat → β → Prop} {b : β}
    (start : P 0 b) (next : ∀ (k : Fin n) (b : β), P k.val b → P (k.val + 1) (step b k)) :
    P n (Fin.foldl n step b) := by
  induction n with
  | zero =>
      rw [Fin.foldl_zero]
      exact start
  | succ n ih =>
      rw [Fin.foldl_succ_last]
      apply next (Fin.last n)
      exact ih fun k b h => next k.castSucc b h

variable {α : Type} [Scalar α] {r c n : Nat}

/-! ### The loops -/

/-- Adds a block of size three at node `a` and node `b`. -/
def Dense.addBlock (A : Dense α r c) (a b : Nat) (B : Mat3 α) : Dense α r c :=
  A.setBlock a b (A.blockAt a b + B)

/-- Adds to the blocks of a column, from the first one down to the one on the diagonal. -/
def Dense.addColumn (A : Dense α r c) (J : Fin n) (block : Fin n → Mat3 α) : Dense α r c :=
  Fin.foldl (J.val + 1) (fun A I => A.addBlock I J (block (I.castLE J.isLt))) A

/-- Adds the multiples by `s` of the contractions of all pairs of gradients, each computed by
itself. The matrix must have three rows and three columns per gradient. -/
def Law.accumulate (law : Law) (p : Lame α) (s : α) (F : Mat3 α) (gradients : Vector (Vec3 α) n)
    (A : Dense α r c) : Option (Dense α r c) :=
  if r = 3 * n ∧ c = 3 * n then
    some <| Fin.foldl n (fun A J =>
      let b := gradients.get J
      A.addColumn J fun I =>
        let a := gradients.get I
        (law.contraction p F a b).scale s) A
  else none

/-- The loop of the Saint Venant-Kirchhoff law: what depends on the deformation gradient only is
computed before the loop, and what also depends on the gradient of a column once per column. -/
def StVK.accumulate (p : Lame α) (s : α) (F : Mat3 α) (gradients : Vector (Vec3 α) n)
    (A : Dense α r c) : Option (Dense α r c) :=
  if r = 3 * n ∧ c = 3 * n then
    let E := strain F
    let t := E.trace
    let FFt := F * F.transpose
    some <| Fin.foldl n (fun A J =>
      let b := gradients.get J
      let Fb := F.mulVec b
      let Eb := E.mulVec b
      A.addColumn J fun I =>
        let a := gradients.get I
        let d := a.dot b
        let Fa := F.mulVec a
        Mat3.diagonal ((Scalar.ofNat 2 * p.mu * a.dot Eb + p.lambda * t * d) * s)
          + (Mat3.outer Fb Fa).scale (p.mu * s)
          + (Mat3.outer Fa Fb).scale (p.lambda * s)
          + FFt.scale (p.mu * d * s)) A
  else none

/-! ### What the loops leave -/

namespace Dense

theorem blockAt_addBlock (A : Dense α r c) {a b : Nat} (B : Mat3 α) (ha : 3 * a + 3 ≤ r)
    (hb : 3 * b + 3 ≤ c) (i j : Nat) :
    (A.addBlock a b B).blockAt i j =
      if i = a ∧ j = b then A.blockAt i j + B else A.blockAt i j := by
  rw [addBlock, blockAt_setBlock A _ ha hb]
  by_cases hBlock : i = a ∧ j = b
  · obtain ⟨rfl, rfl⟩ := hBlock
    rfl
  · rw [if_neg hBlock, if_neg hBlock]

/-- A column is added to down to the diagonal, and the other columns are left alone. -/
theorem blockAt_addColumn (A : Dense α (3 * n) (3 * n)) (J : Fin n) (block : Fin n → Mat3 α)
    (I K : Fin n) :
    (A.addColumn J block).blockAt I K =
      if I ≤ J ∧ K = J then A.blockAt I K + block I else A.blockAt I K := by
  -- after `k` steps the first `k` blocks of the column are done
  let Done (k : Nat) (B : Dense α (3 * n) (3 * n)) : Prop := ∀ I K : Fin n,
    B.blockAt I K = if I.val < k ∧ K = J then A.blockAt I K + block I else A.blockAt I K
  have hStart : Done 0 A := by
    intro I K
    rw [if_neg fun h => Nat.not_lt_zero I.val h.1]
  have hNext (k : Fin (J.val + 1)) (B : Dense α (3 * n) (3 * n)) (hB : Done k.val B) :
      Done (k.val + 1) (B.addBlock k J (block (k.castLE J.isLt))) := by
    intro I K
    rw [blockAt_addBlock B _ (by omega) (by omega), hB I K]
    by_cases hStep : I.val = k.val ∧ K.val = J.val
    · have hRow : k.castLE J.isLt = I := Fin.ext hStep.1.symm
      have hPast : ¬(I.val < k.val ∧ K = J) := by omega
      have hDone : I.val < k.val + 1 ∧ K = J := by omega
      rw [if_pos hStep, if_neg hPast, if_pos hDone, hRow]
    · have hDone : (I.val < k.val + 1 ∧ K = J) ↔ (I.val < k.val ∧ K = J) := by omega
      simp only [hStep, if_false, hDone]
  have hLast : I ≤ J ↔ I.val < J.val + 1 := Nat.lt_succ_iff.symm
  simp only [hLast]
  exact invariant_of_loop hStart hNext I K

/-- Visiting all columns adds once to every block on and above the diagonal. -/
theorem blockAt_addColumns (A : Dense α (3 * n) (3 * n)) (block : Fin n → Fin n → Mat3 α)
    (I K : Fin n) :
    (Fin.foldl n (fun A J => A.addColumn J (block J)) A).blockAt I K =
      if I ≤ K then A.blockAt I K + block K I else A.blockAt I K := by
  -- after `k` steps the first `k` columns are done
  let Done (k : Nat) (B : Dense α (3 * n) (3 * n)) : Prop := ∀ I K : Fin n,
    B.blockAt I K = if I ≤ K ∧ K.val < k then A.blockAt I K + block K I else A.blockAt I K
  have hStart : Done 0 A := by
    intro I K
    rw [if_neg fun h => Nat.not_lt_zero K.val h.2]
  have hNext (k : Fin n) (B : Dense α (3 * n) (3 * n)) (hB : Done k.val B) :
      Done (k.val + 1) (B.addColumn k (block k)) := by
    intro I K
    rw [blockAt_addColumn, hB I K]
    by_cases hStep : I ≤ k ∧ K = k
    · obtain ⟨hRow, rfl⟩ := hStep
      have hPast : ¬(I ≤ K ∧ K.val < K.val) := by omega
      have hDone : I ≤ K ∧ K.val < K.val + 1 := ⟨hRow, Nat.lt_succ_self _⟩
      rw [if_pos ⟨hRow, rfl⟩, if_neg hPast, if_pos hDone]
    · have hDone : (I ≤ K ∧ K.val < k.val + 1) ↔ (I ≤ K ∧ K.val < k.val) := by omega
      simp only [hStep, if_false, hDone]
  simpa only [K.isLt, and_true] using invariant_of_loop hStart hNext I K

theorem get_toBlocks (A : Dense α (3 * n) (3 * n)) (I J : Fin n) :
    A.toBlocks.get I J = A.blockAt I J := by
  rw [← blockAt_flatten, flatten_toBlocks]

/-- Matrices with the same blocks are the same. -/
theorem ext_blockAt {A B : Dense α (3 * n) (3 * n)}
    (h : ∀ I J : Fin n, A.blockAt I J = B.blockAt I J) : A = B := by
  rw [← flatten_toBlocks A, ← flatten_toBlocks B]
  apply congrArg flatten
  apply Dense.ext
  intro I J
  rw [get_toBlocks, get_toBlocks, h]

/-- The loop over all columns adds the blocks on and above the diagonal. -/
theorem addColumns_eq (A : Dense α (3 * n) (3 * n)) (B : Dense (Mat3 α) n n)
    (block : Fin n → Fin n → Mat3 α) (h : ∀ I J, I ≤ J → B.get I J = block J I) :
    Fin.foldl n (fun A J => A.addColumn J (block J)) A = (A.toBlocks.addUpper B).flatten := by
  apply ext_blockAt
  intro I J
  rw [blockAt_addColumns, blockAt_flatten, addUpper, get_ofFn, get_toBlocks]
  by_cases hUpper : I ≤ J
  · rw [if_pos hUpper, if_pos hUpper, h I J hUpper]
  · rw [if_neg hUpper, if_neg hUpper]

end Dense

variable (p : Lame α) (s : α) (F : Mat3 α) (gradients : Vector (Vec3 α) n)

/-- The loop that computes each contraction by itself adds the plain contractions. -/
theorem Law.accumulate_eq (law : Law) (A : Dense α r c) :
    law.accumulate p s F gradients A =
      accumulateContractions (law.plainContractions p s F) gradients A := by
  rw [Law.accumulate, accumulateContractions]
  split
  · rename_i hShape
    obtain ⟨rfl, rfl⟩ := hShape
    apply congrArg some
    apply Dense.addColumns_eq A
    intro I J hUpper
    rw [plainContractions, Dense.get_ofFn, if_pos hUpper]
  · rfl

/-- The loop of the Saint Venant-Kirchhoff law adds the contractions that share computations. -/
theorem StVK.accumulate_eq (A : Dense α r c) :
    accumulate p s F gradients A =
      accumulateContractions (sharedContractions p s F) gradients A := by
  rw [accumulate, accumulateContractions]
  split
  · rename_i hShape
    obtain ⟨rfl, rfl⟩ := hShape
    apply congrArg some
    apply Dense.addColumns_eq A
    intro I J hUpper
    rw [sharedContractions, Dense.get_ofFn, if_pos hUpper, vector_get_map, vector_get_map,
      vector_get_map]
  · rfl

/-- Accumulation of multiples by `s` of the contractions of pairs of gradients into a matrix `A`. -/
structure Accumulates (contraction : Vec3 α → Vec3 α → Mat3 α) (s : α)
    (gradients : Vector (Vec3 α) n) (A : Dense α r c) (result : Option (Dense α r c)) : Prop where
  /-- What has no result is a matrix of another shape, and nothing else. -/
  rejected : result = none ↔ ¬(r = 3 * n ∧ c = 3 * n)
  /-- The blocks on and above the diagonal are added to; those below it are left alone. -/
  blockAt : ∀ B ∈ result, ∀ I J : Fin n, B.blockAt I J =
    if I ≤ J then A.blockAt I J + (contraction (gradients.get I) (gradients.get J)).scale s
    else A.blockAt I J

/-- Whatever the matrix holds before, each contraction is added to its block. -/
theorem Law.accumulates (law : Law) (A : Dense α r c) :
    Accumulates (law.contraction p F) s gradients A (law.accumulate p s F gradients A) := by
  by_cases hShape : r = 3 * n ∧ c = 3 * n
  · have hResult : law.accumulate p s F gradients A = some (Fin.foldl n (fun A J =>
        A.addColumn J fun I => (law.contraction p F (gradients.get I) (gradients.get J)).scale s)
          A) := if_pos hShape
    obtain ⟨rfl, rfl⟩ := hShape
    rw [hResult]
    constructor
    · simp
    · intro B hB I J
      cases hB
      exact Dense.blockAt_addColumns A
        (fun J I => (law.contraction p F (gradients.get I) (gradients.get J)).scale s) I J
  · have hResult : law.accumulate p s F gradients A = none := if_neg hShape
    rw [hResult]
    constructor
    · exact iff_of_true rfl hShape
    · intro B hB
      cases hB

/-! ### The two loops of the Saint Venant-Kirchhoff law -/

variable {K : Type} [ExactScalar K]

/-- The loop that shares computations and the one that computes every contraction by itself leave
the same matrix, and so does the accumulation of whole block matrices. They reject the same shapes,
and otherwise each contraction is added to its block, on and above the diagonal. -/
theorem StVK.accumulate_agrees (p : Lame K) (s : K) (F : Mat3 K) (gradients : Vector (Vec3 K) n)
    (A : Dense K r c) :
    accumulate p s F gradients A = Law.stVK.accumulate p s F gradients A ∧
      accumulateContractions (Law.stVK.contractions p s F) gradients A =
        Law.stVK.accumulate p s F gradients A ∧
      Accumulates (Law.stVK.contraction p F) s gradients A (accumulate p s F gradients A) := by
  have hShared : sharedContractions p s F (n := n) = Law.stVK.plainContractions p s F := by
    funext gradients
    exact sharedContractions_eq p F s gradients
  have hLoops : accumulate p s F gradients A = Law.stVK.accumulate p s F gradients A := by
    calc accumulate p s F gradients A
        = accumulateContractions (sharedContractions p s F) gradients A :=
          accumulate_eq p s F gradients A
      _ = accumulateContractions (Law.stVK.plainContractions p s F) gradients A := by
          rw [hShared]
      _ = Law.stVK.accumulate p s F gradients A :=
          (Law.accumulate_eq p s F gradients .stVK A).symm
  have hBlocks : accumulateContractions (Law.stVK.contractions p s F) gradients A =
      Law.stVK.accumulate p s F gradients A := by
    rw [← hLoops]
    exact (accumulate_eq p s F gradients A).symm
  constructor
  · exact hLoops
  constructor
  · exact hBlocks
  · rw [hLoops]
    exact Law.accumulates p s F gradients .stVK A

end Elastodynamics
