import Elastodynamics.Proofs.Model.Bodies
/-!
Block-diagonal additions over exact scalars. The matrix of a body is symmetric, so adding its stored
blocks along the diagonal adds the whole of it once: the second symmetrisation of its diagonal
blocks changes nothing.
-/
namespace Elastodynamics

open Sparse

variable {K : Type} [ExactScalar K]

/-- A coordinate that is an upper one after it has been moved along the diagonal was one before. -/
theorem Sparse.Coord.eq_upper_sub {c : Coord} {first i j : Nat}
    (h : (first + c.1, first + c.2) = Coord.upper (i, j)) :
    c = Coord.upper (i - first, j - first) := by
  simp only [Coord.upper, Prod.mk.injEq] at h
  apply Prod.ext
  · show c.1 = min (i - first) (j - first)
    omega
  · show c.2 = max (i - first) (j - first)
    omega

namespace Sparse.BlockMatrix

/-- The block at `(i, j)` of a matrix that is moved along the diagonal. -/
def movedBlock (first : Nat) (B : BlockMatrix K) (i j : Nat) : Mat3 K :=
  if first ≤ i ∧ first ≤ j then B.block (i - first) (j - first) else 0

/-- The block at `(i, j)` of the matrix with the given matrices along the diagonal, each of which
comes with its number of block rows. -/
def diagonalSum : (first : Nat) → List (Nat × BlockMatrix K) → Nat → Nat → Mat3 K
  | _, [], _, _ => 0
  | first, (n, B) :: l, i, j => movedBlock first B i j + diagonalSum (first + n) l i j

/-- Before the first matrix the sum is zero. -/
theorem diagonalSum_of_lt {first i j : Nat} {matrices : List (Nat × BlockMatrix K)}
    (h : i < first) : diagonalSum first matrices i j = 0 := by
  induction matrices generalizing first with
  | nil => rfl
  | cons p matrices ih =>
      rw [diagonalSum, ih (Nat.lt_add_right _ h), add_zero, movedBlock,
        if_neg fun hLe => Nat.not_lt.mpr hLe.1 h]

/-- Outside of a matrix there are no blocks. -/
theorem block_of_size_le {B : BlockMatrix K} {i j : Nat} (h : B.size ≤ i ∨ B.size ≤ j) :
    B.block i j = 0 := by
  apply block_of_not_contains
  intro hStored
  have hLt : i < B.size ∧ j < B.size := Pattern.lt_size_of_contains hStored
  omega

/-- A stored block of a matrix with a symmetric diagonal is moved as it is: above the diagonal
because it is kept, and on the diagonal because it is its own symmetric part. -/
theorem HasSymmetricDiagonal.contribution_get {B : BlockMatrix K} (hB : B.HasSymmetricDiagonal)
    (first : Nat) (k : Fin B.pattern.entries.size) :
    contribution (first + (B.pattern.entry k).1) (first + (B.pattern.entry k).2)
      (B.blocks.get k) = B.blocks.get k := by
  have hUpper := Pattern.upper_of_mem (B.pattern.entry_mem k)
  rw [contribution]
  rcases Nat.lt_or_eq_of_le hUpper with hlt | heq
  · exact if_pos (Nat.add_lt_add_left hlt first)
  · have hSame : first + (B.pattern.entry k).1 = first + (B.pattern.entry k).2 :=
      congrArg (first + ·) heq
    rw [hSame, if_neg (Nat.lt_irrefl _), if_neg (Nat.lt_irrefl _)]
    exact Mat3.symmetricPart_of_symmetric (hB.transpose_get heq)

/-- What a moved stored block adds at `(i, j)`: the block of the matrix there if it is the stored
one, and nothing otherwise. -/
theorem upperAddition_moved {B : BlockMatrix K} (hB : B.HasSymmetricDiagonal) (first : Nat)
    (k : Fin B.pattern.entries.size) (i j : Nat) :
    upperAddition i j
        ((first + (B.pattern.entry k).1, first + (B.pattern.entry k).2), B.blocks.get k) =
      if B.pattern.find? (i - first) (j - first) = some k then movedBlock first B i j else 0 := by
  rw [upperAddition, hB.contribution_get]
  by_cases hFind : B.pattern.find? (i - first) (j - first) = some k
  · have hCoord := Pattern.find?_eq_some_iff.mp hFind
    rw [if_pos hFind, movedBlock]
    by_cases hIn : first ≤ i ∧ first ≤ j
    · have hPlace : (first + (B.pattern.entry k).1, first + (B.pattern.entry k).2) =
          Coord.upper (i, j) := by
        rw [hCoord]
        simp only [Coord.upper, Prod.mk.injEq]
        omega
      have hOriented : oriented i j (B.blocks.get k) =
          oriented (i - first) (j - first) (B.blocks.get k) := by
        have hOrder : i ≤ j ↔ i - first ≤ j - first := by omega
        rw [oriented, oriented]
        simp only [hOrder]
      rw [if_pos hPlace, if_pos hIn, hOriented, block_of_find? hFind]
    · have hPlace : (first + (B.pattern.entry k).1, first + (B.pattern.entry k).2) ≠
          Coord.upper (i, j) := by
        simp only [Coord.upper, ne_eq, Prod.mk.injEq]
        omega
      rw [if_neg hPlace, if_neg hIn]
  · have hPlace : (first + (B.pattern.entry k).1, first + (B.pattern.entry k).2) ≠
        Coord.upper (i, j) := by
      intro h
      apply hFind
      rw [Pattern.find?_eq_some_iff]
      exact Coord.eq_upper_sub h
    rw [if_neg hPlace, if_neg hFind]

/-- All stored blocks together, moved along the diagonal, add the moved matrix. -/
theorem sum_upperAddition_stored {B : BlockMatrix K} (hB : B.HasSymmetricDiagonal)
    (first i j : Nat) :
    (B.stored.map fun e => upperAddition i j ((first + e.1.1, first + e.1.2), e.2)).sum =
      movedBlock first B i j := by
  rw [stored_eq_ofFn, List.map_ofFn, List.sum_ofFn]
  have hTerm (k : Fin B.pattern.entries.size) := upperAddition_moved hB first k i j
  simp only [Function.comp_apply, hTerm]
  cases hFind : B.pattern.find? (i - first) (j - first) with
  | some k => simp
  | none =>
      have hZero : B.block (i - first) (j - first) = 0 := by
        apply block_of_not_contains
        rw [Pattern.contains, hFind]
        exact Bool.false_ne_true
      simp [movedBlock, hZero]

end Sparse.BlockMatrix

namespace Model

/-! ### Additions along the diagonal -/

variable {A A' : BlockMatrix K} {first : Nat}

theorem block_addStored {l : List (Coord × Mat3 K)} (hUpper : ∀ e ∈ l, e.1.1 ≤ e.1.2)
    (h : addBodies.addStored first l A = (A', .ok ())) (i j : Nat) :
    A'.block i j = A.block i j +
      (l.map fun e => BlockMatrix.upperAddition i j ((first + e.1.1, first + e.1.2), e.2)).sum := by
  induction l generalizing A with
  | nil =>
      cases h
      exact (add_zero _).symm
  | cons e l ih =>
      obtain ⟨⟨p, q⟩, X⟩ := e
      have hpq : first + p ≤ first + q := Nat.add_le_add_left (hUpper _ List.mem_cons_self) first
      rw [addBodies.addStored] at h
      cases hAdd : A.addToBlock (first + p) (first + q) X with
      | error e =>
          rw [hAdd] at h
          cases h
      | ok A₁ =>
          rw [hAdd] at h
          rw [ih (fun e he => hUpper e (List.mem_cons_of_mem _ he)) h,
            BlockMatrix.block_addToBlock hpq hAdd, List.map_cons, List.sum_cons, add_assoc]

/-- Matrices with symmetric diagonals are added along the diagonal, one after the other. -/
theorem block_addBodies {matrices : List (Nat × BlockMatrix K)}
    (hSymmetric : ∀ p ∈ matrices, p.2.HasSymmetricDiagonal)
    (h : addBodies first matrices A = (A', .ok ())) (i j : Nat) :
    A'.block i j = A.block i j + BlockMatrix.diagonalSum first matrices i j := by
  induction matrices generalizing first A with
  | nil =>
      rw [addBodies] at h
      cases h
      exact (add_zero _).symm
  | cons p matrices ih =>
      obtain ⟨n, B⟩ := p
      have hUpper : ∀ e ∈ B.stored, e.1.1 ≤ e.1.2 := fun e he =>
        Pattern.upper_of_mem (BlockMatrix.mem_entries_of_mem_stored he)
      rw [addBodies] at h
      cases hAdd : addBodies.addStored first B.stored A with
      | mk A₁ status =>
          rw [hAdd] at h
          cases status with
          | error e => cases h
          | ok u =>
              rw [ih (fun p hp => hSymmetric p (List.mem_cons_of_mem _ hp)) h,
                block_addStored hUpper hAdd,
                BlockMatrix.sum_upperAddition_stored (hSymmetric _ List.mem_cons_self), add_assoc]
              rfl

/-! ### Symmetric diagonals -/

theorem hasSymmetricDiagonal_addStored {l : List (Coord × Mat3 K)} (hA : A.HasSymmetricDiagonal)
    (h : addBodies.addStored first l A = (A', .ok ())) : A'.HasSymmetricDiagonal := by
  induction l generalizing A with
  | nil =>
      cases h
      exact hA
  | cons e l ih =>
      obtain ⟨⟨p, q⟩, X⟩ := e
      rw [addBodies.addStored] at h
      cases hAdd : A.addToBlock (first + p) (first + q) X with
      | error e =>
          rw [hAdd] at h
          cases h
      | ok A₁ =>
          rw [hAdd] at h
          exact ih (hA.addToBlock hAdd) h

theorem hasSymmetricDiagonal_addBodies {matrices : List (Nat × BlockMatrix K)}
    (hA : A.HasSymmetricDiagonal) (h : addBodies first matrices A = (A', .ok ())) :
    A'.HasSymmetricDiagonal := by
  induction matrices generalizing first A with
  | nil =>
      rw [addBodies] at h
      cases h
      exact hA
  | cons p matrices ih =>
      obtain ⟨n, B⟩ := p
      rw [addBodies] at h
      cases hAdd : addBodies.addStored first B.stored A with
      | mk A₁ status =>
          rw [hAdd] at h
          cases status with
          | error e => cases h
          | ok u => exact ih (hasSymmetricDiagonal_addStored hA hAdd) h

end Model

namespace TypedModel

variable [ElementFamily K] {κ : Kind K} {A A' : BlockMatrix K}

theorem hasSymmetricDiagonal_addTangents
    {l : List ((kind κ).Element × Dense (Mat3 K) (kind κ).nodeCount (kind κ).nodeCount)}
    (hA : A.HasSymmetricDiagonal) (h : addTangents l A = (A', .ok ())) :
    A'.HasSymmetricDiagonal := by
  induction l generalizing A with
  | nil =>
      cases h
      exact hA
  | cons p l ih =>
      obtain ⟨e, L⟩ := p
      rw [addTangents] at h
      cases hAdd : A.addToBlocks ((kind κ).nodes e).toList L.flatten with
      | error e =>
          rw [hAdd] at h
          cases h
      | ok A₁ =>
          rw [hAdd] at h
          exact ih (hA.addToBlocks hAdd) h

end TypedModel

namespace Model

variable [ElementFamily K] {A A' : BlockMatrix K}

/-- The tangent matrix of a model keeps the diagonal symmetric, whatever it is made of. -/
theorem hasSymmetricDiagonal_tangentOf {m : Model K} {x : Motion K} {w : Weights K}
    (hA : A.HasSymmetricDiagonal) (h : m.tangentOf x w A = (A', .ok ())) :
    A'.HasSymmetricDiagonal := by
  cases m with
  | typed m =>
      rw [tangentOf] at h
      split at h
      · cases h
        exact hA
      · split at h
        · cases h
        · exact TypedModel.hasSymmetricDiagonal_addTangents hA h
  | composite id P bodies =>
      obtain ⟨_, _, hAdd⟩ := tangentOf_composite_eq_ok h
      exact hasSymmetricDiagonal_addBodies hA hAdd

variable {bodies : List (Model K)} {matrices : List (Nat × BlockMatrix K)} {first : Nat}

/-- The tangent matrices of bodies have symmetric diagonals. -/
theorem hasSymmetricDiagonal_bodyTangentsOf {x : Motion K} {w : Weights K}
    (h : bodyTangentsOf first bodies x w = .ok matrices) :
    ∀ p ∈ matrices, p.2.HasSymmetricDiagonal := by
  induction bodies generalizing first x matrices with
  | nil =>
      rw [bodyTangentsOf] at h
      cases h
      intro p hp
      cases hp
  | cons b bodies ih =>
      obtain ⟨B, rest, hHead, hTail, rfl⟩ := bodyTangentsOf_cons_eq_ok h
      intro p hp
      cases List.mem_cons.mp hp with
      | inl hSame =>
          rw [hSame]
          exact hasSymmetricDiagonal_tangentOf
            (BlockMatrix.hasSymmetricDiagonal_ofPattern b.pattern) hHead
      | inr hRest => exact ih hTail p hRest

/-! ### Places on the diagonal -/

/-- Among the block rows and columns of a body the sum has the matrix of the body. -/
theorem diagonalSum_inside (hBodies : ∀ b ∈ bodies, b.WellFormed)
    (hMatch : MatchBodies bodies matrices) {k : Nat} {b : Model K} {p : Nat × BlockMatrix K}
    {offset : Nat} (hBody : bodies[k]? = some b) (hMatrix : matrices[k]? = some p)
    (hOffset : (nodeOffsets first bodies)[k]? = some offset) {i : Nat} (hi : i < b.numNodes)
    (j : Nat) :
    BlockMatrix.diagonalSum first matrices (offset + i) (offset + j) = p.2.block i j := by
  induction hMatch generalizing first k with
  | nil => cases hBody
  | @cons b' p' bodies matrices hSame hMatch ih =>
      obtain ⟨n, B⟩ := p'
      obtain ⟨rfl, hPattern⟩ := hSame
      cases k with
      | zero =>
          cases hBody
          cases hMatrix
          cases hOffset
          have hRest : BlockMatrix.diagonalSum (offset + b.numNodes) matrices (offset + i)
              (offset + j) = 0 := BlockMatrix.diagonalSum_of_lt (Nat.add_lt_add_left hi offset)
          rw [BlockMatrix.diagonalSum, hRest, add_zero, BlockMatrix.movedBlock,
            if_pos ⟨Nat.le_add_right _ _, Nat.le_add_right _ _⟩, Nat.add_sub_cancel_left,
            Nat.add_sub_cancel_left]
      | succ k =>
          have hLe : first + b'.numNodes ≤ offset := le_of_getElem?_nodeOffsets hOffset
          have hSize : B.size = b'.numNodes := by
            rw [BlockMatrix.size, hPattern]
            exact (hBodies b' List.mem_cons_self).size_pattern
          have hRest := ih (fun b hb => hBodies b (List.mem_cons_of_mem _ hb)) hBody hMatrix hOffset
          rw [BlockMatrix.diagonalSum, hRest, BlockMatrix.movedBlock, if_pos (by omega),
            BlockMatrix.block_of_size_le (by omega), zero_add]

/-- Where no body has both the block row and the block column the sum is zero. -/
theorem diagonalSum_outside (hBodies : ∀ b ∈ bodies, b.WellFormed)
    (hMatch : MatchBodies bodies matrices) {i j : Nat}
    (hNone : ∀ (k : Nat) b offset, bodies[k]? = some b →
      (nodeOffsets first bodies)[k]? = some offset →
      ¬((offset ≤ i ∧ i < offset + b.numNodes) ∧ offset ≤ j ∧ j < offset + b.numNodes)) :
    BlockMatrix.diagonalSum first matrices i j = 0 := by
  induction hMatch generalizing first with
  | nil => rfl
  | @cons b p bodies matrices hBody hMatch ih =>
      obtain ⟨n, B⟩ := p
      obtain ⟨rfl, hPattern⟩ := hBody
      have hSize : B.size = b.numNodes := by
        rw [BlockMatrix.size, hPattern]
        exact (hBodies b List.mem_cons_self).size_pattern
      have hRest : BlockMatrix.diagonalSum (first + b.numNodes) matrices i j = 0 :=
        ih (fun b hb => hBodies b (List.mem_cons_of_mem _ hb)) fun k => hNone (k + 1)
      have hHead := hNone 0 b first rfl rfl
      rw [BlockMatrix.diagonalSum, hRest, add_zero, BlockMatrix.movedBlock]
      split
      · apply BlockMatrix.block_of_size_le
        rw [hSize]
        omega
      · rfl

/-! ### Models of bodies -/

/-- Tangent matrices of bodies for pieces of a motion have the patterns of the bodies and symmetric
diagonals. -/
theorem matchBodies_of_pieces (hBodies : ∀ b ∈ bodies, b.WellFormed) {x : Motion K} {w : Weights K}
    {results : List (BlockMatrix K)}
    (h : Pieces (fun b x B => b.tangentOf x w b.makeTangent = (B, .ok ())) bodies x results) :
    MatchBodies bodies ((bodies.zip results).map fun p => (p.1.numNodes, p.2)) ∧
      ∀ B ∈ results, B.HasSymmetricDiagonal := by
  induction h with
  | nil x => exact ⟨.nil, fun B hB => absurd hB List.not_mem_nil⟩
  | @cons b bodies x B results hBody hRest ih =>
      obtain ⟨hMatch, hSymmetric⟩ := ih fun b hb => hBodies b (List.mem_cons_of_mem _ hb)
      have hOutcome := tangentOf_outcome (hBodies b List.mem_cons_self) (x.take b.numDofs) w
        b.makeTangent fun _ hc => hc
      rw [hBody] at hOutcome
      have hPattern : B.pattern = b.pattern := by
        cases hOutcome with
        | added hPattern => exact hPattern
      refine ⟨.cons ⟨rfl, hPattern⟩ hMatch, fun B' hB' => ?_⟩
      rcases List.mem_cons.mp hB' with rfl | hB'
      · exact hasSymmetricDiagonal_tangentOf
          (BlockMatrix.hasSymmetricDiagonal_ofPattern b.pattern) hBody
      · exact hSymmetric B' hB'

/-- The tangent matrix of a model of bodies has those of the bodies on the diagonal, and nothing
else. -/
theorem block_tangentOf_composite {id : SystemId} {P : Pattern}
    (hm : (composite id P bodies).WellFormed) {x : Motion K} {w : Weights K}
    {results : List (BlockMatrix K)}
    (h : Pieces (fun b x B => b.tangentOf x w b.makeTangent = (B, .ok ())) bodies x results)
    {A : BlockMatrix K} (hA : ∀ c ∈ P.entries, c ∈ A.pattern.entries) :
    ∃ A', (composite id P bodies).tangentOf x w A = (A', .ok ()) ∧ A'.pattern = A.pattern ∧
      (∀ (k : Nat) b B offset, bodies[k]? = some b → results[k]? = some B →
        (nodeOffsets 0 bodies)[k]? = some offset → ∀ i < b.numNodes, ∀ j,
          A'.block (offset + i) (offset + j) =
            A.block (offset + i) (offset + j) + B.block i j) ∧
      ∀ i j, (∀ (k : Nat) b offset, bodies[k]? = some b →
          (nodeOffsets 0 bodies)[k]? = some offset →
          ¬((offset ≤ i ∧ i < offset + b.numNodes) ∧ offset ≤ j ∧ j < offset + b.numNodes)) →
        A'.block i j = A.block i j := by
  have hEntries : ∀ c ∈ blockEntries 0 bodies, c ∈ A.pattern.entries := fun c hc =>
    hA c (hm.mem_pattern_composite.mpr hc)
  cases hm with
  | composite hBodies hPattern =>
      obtain ⟨hMatch, hResults⟩ := matchBodies_of_pieces hBodies h
      have hSymmetric : ∀ p ∈ (bodies.zip results).map fun p => (p.1.numNodes, p.2),
          p.2.HasSymmetricDiagonal := by
        intro p hp
        obtain ⟨q, hq, rfl⟩ := List.mem_map.mp hp
        exact hResults q.2 (List.of_mem_zip hq).2
      obtain ⟨A', hAdd, hSame⟩ := addBodies_of_entries hMatch hEntries
      have hSum := block_addBodies hSymmetric hAdd
      refine ⟨A', ?_, hSame, fun k b B offset hBody hResult hOffset i hi j => ?_,
        fun i j hNone => ?_⟩
      · rw [tangentOf, bodyTangentsOf_of_pieces h]
        exact hAdd
      · have hMatrix : ((bodies.zip results).map fun p => (p.1.numNodes, p.2))[k]? =
            some (b.numNodes, B) := by
          rw [List.getElem?_map, (List.getElem?_zip_eq_some (z := (b, B))).mpr ⟨hBody, hResult⟩]
          rfl
        rw [hSum, diagonalSum_inside hBodies hMatch hBody hMatrix hOffset hi]
      · rw [hSum, diagonalSum_outside hBodies hMatch hNone, add_zero]

end Model

end Elastodynamics
