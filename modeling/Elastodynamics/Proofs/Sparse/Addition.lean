import Elastodynamics.Proofs.Algebra.Exact
import Elastodynamics.Proofs.Sparse.Construction
import Elastodynamics.Proofs.Sparse.Dense
/-!
Additions to block-sparse matrices. An addition to stored blocks succeeds and keeps the pattern.
Over exact scalars it changes the symmetric matrix by what the added blocks stand for: a block off
the diagonal by itself and by its transpose on the other side, a block on the diagonal by its
symmetric part.
-/
namespace Elastodynamics.Sparse.BlockMatrix

section Success

variable {α : Type} {A A' : BlockMatrix α}

theorem storageIndex_eq_ok_iff {i j : Nat} {k : Fin A.pattern.entries.size} :
    A.storageIndex i j = .ok k ↔ A.pattern.find? i j = some k := by
  rw [storageIndex]
  constructor
  · intro h
    split at h
    · cases hFind : A.pattern.find? i j with
      | some k' =>
          rw [hFind] at h
          cases h
          rfl
      | none =>
          rw [hFind] at h
          cases h
    · cases h
  · intro h
    have hStored : A.pattern.contains i j = true := by
      rw [Pattern.contains, h]
      rfl
    have hLt : i < A.size ∧ j < A.size := Pattern.lt_size_of_contains hStored
    rw [if_pos hLt, h]

/-- A stored block has a storage index. -/
theorem storageIndex_of_contains {i j : Nat} (h : A.pattern.contains i j = true) :
    ∃ k, A.storageIndex i j = .ok k := by
  obtain ⟨k, hk⟩ := Option.isSome_iff_exists.mp h
  exact ⟨k, storageIndex_eq_ok_iff.mpr hk⟩

theorem checkStored_of_contains {l : List Coord}
    (h : ∀ c ∈ l, A.pattern.contains c.1 c.2 = true) : A.checkStored l = .ok () := by
  induction l with
  | nil => rfl
  | cons c l ih =>
      obtain ⟨k, hk⟩ := storageIndex_of_contains (h c List.mem_cons_self)
      rw [checkStored, hk]
      exact ih fun c hc => h c (List.mem_cons_of_mem _ hc)

variable [Scalar α]

/-! ### One block -/

theorem addToBlock_eq_ok_iff {i j : Nat} {B : Mat3 α} :
    A.addToBlock i j B = .ok A' ↔ ∃ k, A.pattern.find? i j = some k ∧
      A' = { A.addStored k (contribution i j B) with stale := true } := by
  rw [addToBlock]
  constructor
  · intro h
    cases hIndex : A.storageIndex i j with
    | ok k =>
        rw [hIndex] at h
        cases h
        exact ⟨k, storageIndex_eq_ok_iff.mp hIndex, rfl⟩
    | error e =>
        rw [hIndex] at h
        cases h
  · rintro ⟨k, hFind, rfl⟩
    rw [storageIndex_eq_ok_iff.mpr hFind]
    rfl

/-- An addition to a stored block succeeds. -/
theorem addToBlock_of_contains {i j : Nat} (B : Mat3 α) (h : A.pattern.contains i j = true) :
    ∃ A', A.addToBlock i j B = .ok A' := by
  obtain ⟨k, hk⟩ := Option.isSome_iff_exists.mp h
  exact ⟨_, addToBlock_eq_ok_iff.mpr ⟨k, hk, rfl⟩⟩

theorem pattern_of_addToBlock {i j : Nat} {B : Mat3 α} (h : A.addToBlock i j B = .ok A') :
    A'.pattern = A.pattern := by
  obtain ⟨k, _, rfl⟩ := addToBlock_eq_ok_iff.mp h
  rfl

/-! ### A list of blocks -/

theorem addUpper_of_contains {l : List (Coord × Mat3 α)}
    (h : ∀ e ∈ l, A.pattern.contains e.1.1 e.1.2 = true) : ∃ A', A.addUpper l = .ok A' := by
  induction l generalizing A with
  | nil => exact ⟨A, rfl⟩
  | cons e l ih =>
      obtain ⟨⟨i, j⟩, B⟩ := e
      have hTail : ∀ e ∈ l, A.pattern.contains e.1.1 e.1.2 = true :=
        fun e he => h e (List.mem_cons_of_mem _ he)
      rw [addUpper]
      split
      · exact ih hTail
      · obtain ⟨k, hk⟩ := storageIndex_of_contains (h _ List.mem_cons_self)
        rw [hk]
        exact ih hTail

theorem pattern_of_addUpper {l : List (Coord × Mat3 α)} (h : A.addUpper l = .ok A') :
    A'.pattern = A.pattern := by
  induction l generalizing A with
  | nil =>
      cases h
      rfl
  | cons e l ih =>
      obtain ⟨⟨i, j⟩, B⟩ := e
      rw [addUpper] at h
      split at h
      · exact ih h
      · cases hIndex : A.storageIndex i j with
        | ok k =>
            rw [hIndex] at h
            have hSame : A'.pattern = (A.addStored k (contribution i j B)).pattern := ih h
            exact hSame
        | error e =>
            rw [hIndex] at h
            cases h

/-! ### A dense matrix -/

section Dense

variable {m n : Nat} {indices : List Nat} {L : Dense α m n}

theorem mem_of_mem_placedBlocks {e : Coord × Mat3 α} (h : e ∈ placedBlocks indices L) :
    e.1.1 ∈ indices ∧ e.1.2 ∈ indices := by
  obtain ⟨⟨i, a⟩, hi, h⟩ := List.mem_flatMap.mp h
  obtain ⟨⟨j, b⟩, hj, rfl⟩ := List.mem_map.mp h
  have hRow : i ∈ indices := List.fst_mem_of_mem_zipIdx hi
  have hCol : j ∈ indices := List.fst_mem_of_mem_zipIdx hj
  exact ⟨hRow, hCol⟩

/-- An addition of a dense matrix succeeds if it has three rows and three columns per index and
every two indices have a stored block. -/
theorem addToBlocks_of_contains (hRows : m = 3 * indices.length) (hCols : n = 3 * indices.length)
    (hStored : ∀ i ∈ indices, ∀ j ∈ indices, A.pattern.contains i j = true) :
    ∃ A', A.addToBlocks indices L = .ok A' := by
  have hCheck : A.checkStored (Pattern.couplings indices) = .ok () :=
    checkStored_of_contains fun c hc =>
      have hMem := Pattern.mem_of_mem_couplings (i := c.1) (j := c.2) hc
      hStored c.1 hMem.1 c.2 hMem.2
  obtain ⟨A', hA'⟩ := addUpper_of_contains (l := placedBlocks indices L) fun e he =>
    have hMem := mem_of_mem_placedBlocks he
    hStored e.1.1 hMem.1 e.1.2 hMem.2
  refine ⟨{ A' with stale := true }, ?_⟩
  subst hRows hCols
  simp only [addToBlocks, ne_eq, not_true_eq_false, if_false, hCheck, hA']
  rfl

/-- What an addition that succeeds has done. -/
theorem addUpper_of_addToBlocks (h : A.addToBlocks indices L = .ok A') :
    m = 3 * indices.length ∧ n = 3 * indices.length ∧
      ∃ B, A.addUpper (placedBlocks indices L) = .ok B ∧ A' = { B with stale := true } := by
  simp only [addToBlocks] at h
  by_cases hDim : (m, n) = (3 * indices.length, 3 * indices.length)
  · rw [if_neg (not_not_intro hDim)] at h
    cases hCheck : A.checkStored (Pattern.couplings indices) with
    | error e =>
        rw [hCheck] at h
        cases h
    | ok u =>
        cases hAdd : A.addUpper (placedBlocks indices L) with
        | error e =>
            rw [hCheck, hAdd] at h
            cases h
        | ok B =>
            rw [hCheck, hAdd] at h
            cases h
            exact ⟨congrArg Prod.fst hDim, congrArg Prod.snd hDim, B, rfl, rfl⟩
  · rw [if_pos hDim] at h
    cases h

theorem pattern_of_addToBlocks (h : A.addToBlocks indices L = .ok A') :
    A'.pattern = A.pattern := by
  obtain ⟨_, _, B, hAdd, rfl⟩ := addUpper_of_addToBlocks h
  have hPattern : B.pattern = A.pattern := pattern_of_addUpper hAdd
  exact hPattern

end Dense

end Success

section Exact

variable {K : Type} [ExactScalar K] {A A' : BlockMatrix K}

/-- What an addition to one stored block changes. -/
theorem block_addStored (k : Fin A.pattern.entries.size) (B : Mat3 K) (i j : Nat) :
    (A.addStored k B).block i j = A.block i j +
      if A.pattern.entry k = Coord.upper (i, j) then oriented i j B else 0 := by
  cases hFind : A.pattern.find? i j with
  | some l =>
      have hBlock : (A.addStored k B).block i j = oriented i j ((A.addStored k B).blocks.get l) :=
        block_of_find? hFind
      have hEntry : A.pattern.entry k = Coord.upper (i, j) ↔ l = k := by
        rw [← Pattern.find?_eq_some_iff, hFind, Option.some_inj]
      rw [hBlock, block_of_find? hFind]
      by_cases hSame : l = k
      · subst hSame
        rw [if_pos (hEntry.mpr rfl)]
        have hNew : (A.addStored l B).blocks.get l = A.blocks.get l + B :=
          Vector.getElem_set_self l.isLt
        rw [hNew, oriented, oriented, oriented]
        split <;> rfl
      · rw [if_neg fun h => hSame (hEntry.mp h), add_zero]
        have hOld : (A.addStored k B).blocks.get l = A.blocks.get l :=
          Vector.getElem_set_ne k.isLt l.isLt fun h => hSame (Fin.ext h.symm)
        rw [hOld]
  | none =>
      have hMissing : ¬ A.pattern.contains i j = true := by
        rw [Pattern.contains, hFind]
        exact Bool.false_ne_true
      have hEntry : A.pattern.entry k ≠ Coord.upper (i, j) := by
        rw [ne_eq, ← Pattern.find?_eq_some_iff, hFind]
        exact (Option.some_ne_none k).symm
      have hNew : (A.addStored k B).block i j = 0 := block_of_not_contains hMissing
      rw [hNew, block_of_not_contains hMissing, if_neg hEntry, add_zero]

/-- What one added block contributes at `(i, j)`. A block below the diagonal has no place in the
upper triangle and contributes nothing. -/
def upperAddition (i j : Nat) (e : Coord × Mat3 K) : Mat3 K :=
  if e.1 = Coord.upper (i, j) then oriented i j (contribution e.1.1 e.1.2 e.2) else 0

theorem upperAddition_above {i j : Nat} (hlt : i < j) (p q : Nat) (B : Mat3 K) :
    upperAddition i j ((p, q), B) = if p = i ∧ q = j then B else 0 := by
  have hle : i ≤ j := Nat.le_of_lt hlt
  by_cases h : p = i ∧ q = j
  · obtain ⟨rfl, rfl⟩ := h
    simp [upperAddition, Coord.upper, oriented, contribution, hlt, hle]
  · simp [upperAddition, Coord.upper, hle, h]

theorem upperAddition_diagonal (i p q : Nat) (B : Mat3 K) :
    upperAddition i i ((p, q), B) = if p = i ∧ q = i then B.symmetricPart else 0 := by
  by_cases h : p = i ∧ q = i
  · obtain ⟨rfl, rfl⟩ := h
    simp [upperAddition, Coord.upper, oriented, contribution]
  · simp [upperAddition, Coord.upper, h]

theorem upperAddition_below {i j : Nat} (hgt : j < i) (p q : Nat) (B : Mat3 K) :
    upperAddition i j ((p, q), B) = if q = i ∧ p = j then B.transpose else 0 := by
  have hle : j ≤ i := Nat.le_of_lt hgt
  by_cases h : q = i ∧ p = j
  · obtain ⟨rfl, rfl⟩ := h
    simp [upperAddition, Coord.upper, oriented, contribution, hgt, hle]
  · have hCoord : ¬(p = j ∧ q = i) := fun hpq => h hpq.symm
    simp [upperAddition, Coord.upper, hle, h, hCoord]

theorem block_addContribution {a b : Nat} (hab : a ≤ b) {k : Fin A.pattern.entries.size}
    (hFind : A.pattern.find? a b = some k) (B : Mat3 K) (i j : Nat) :
    (A.addStored k (contribution a b B)).block i j =
      A.block i j + upperAddition i j ((a, b), B) := by
  have hEntry := Pattern.find?_eq_some_iff.mp hFind
  rw [Coord.upper_eq_self (c := (a, b)) hab] at hEntry
  rw [block_addStored, hEntry]
  rfl

theorem block_addToBlock {a b : Nat} {B : Mat3 K} (hab : a ≤ b) (h : A.addToBlock a b B = .ok A')
    (i j : Nat) : A'.block i j = A.block i j + upperAddition i j ((a, b), B) := by
  obtain ⟨k, hFind, rfl⟩ := addToBlock_eq_ok_iff.mp h
  exact block_addContribution hab hFind B i j

/-- Below the diagonal the transposed block is added on the other side. -/
theorem addToBlock_swap {a b : Nat} {B : Mat3 K} (hab : b < a) (h : A.addToBlock a b B = .ok A') :
    A.addToBlock b a B.transpose = .ok A' := by
  obtain ⟨k, hFind, rfl⟩ := addToBlock_eq_ok_iff.mp h
  have hSame : contribution a b B = contribution b a B.transpose := by
    rw [contribution, contribution, if_neg (Nat.not_lt_of_lt hab), if_pos hab, if_pos hab]
  rw [Pattern.find?, Coord.upper_swap] at hFind
  exact addToBlock_eq_ok_iff.mpr ⟨k, hFind, by rw [hSame]⟩

/-- An addition off the diagonal adds the block, and its transpose on the other side. -/
theorem block_addToBlock_of_ne {a b : Nat} {B : Mat3 K} (hab : a ≠ b)
    (h : A.addToBlock a b B = .ok A') (i j : Nat) :
    A'.block i j = A.block i j + (if i = a ∧ j = b then B else 0) +
      (if i = b ∧ j = a then B.transpose else 0) := by
  -- it is enough to add above the diagonal, where the two summands are found in this order
  have hAbove {a b : Nat} {B : Mat3 K} (hab : a < b) (h : A.addToBlock a b B = .ok A') :
      A'.block i j = A.block i j + ((if i = a ∧ j = b then B else 0) +
        (if i = b ∧ j = a then B.transpose else 0)) := by
    rw [block_addToBlock (Nat.le_of_lt hab) h]
    congr 1
    rcases Nat.lt_trichotomy i j with hlt | rfl | hgt
    · have hOther : ¬(i = b ∧ j = a) := by omega
      rw [upperAddition_above hlt, if_neg hOther, add_zero]
      simp only [eq_comm]
    · have hOne : ¬(a = i ∧ b = i) := by omega
      have hTwo : ¬(i = a ∧ i = b) := by omega
      have hThree : ¬(i = b ∧ i = a) := by omega
      rw [upperAddition_diagonal, if_neg hOne, if_neg hTwo, if_neg hThree, add_zero]
    · have hOther : ¬(i = a ∧ j = b) := by omega
      rw [upperAddition_below hgt, if_neg hOther, zero_add]
      simp only [eq_comm]
  rw [add_assoc]
  rcases Nat.lt_or_gt_of_ne hab with hlt | hgt
  · exact hAbove hlt h
  · rw [hAbove hgt (addToBlock_swap hgt h), add_comm (ite _ _ _), Mat3.transpose_transpose]

/-- An addition on the diagonal adds the symmetric part of the block. -/
theorem block_addToBlock_self {a : Nat} {B : Mat3 K} (h : A.addToBlock a a B = .ok A')
    (i j : Nat) :
    A'.block i j = A.block i j + if i = a ∧ j = a then B.symmetricPart else 0 := by
  rw [block_addToBlock (Nat.le_refl a) h]
  congr 1
  rcases Nat.lt_trichotomy i j with hlt | rfl | hgt
  · have hOne : ¬(a = i ∧ a = j) := by omega
    have hTwo : ¬(i = a ∧ j = a) := by omega
    rw [upperAddition_above hlt, if_neg hOne, if_neg hTwo]
  · rw [upperAddition_diagonal]
    simp only [eq_comm]
  · have hOne : ¬(a = i ∧ a = j) := by omega
    have hTwo : ¬(i = a ∧ j = a) := by omega
    rw [upperAddition_below hgt, if_neg hOne, if_neg hTwo]

theorem block_addUpper {l : List (Coord × Mat3 K)} (h : A.addUpper l = .ok A') (i j : Nat) :
    A'.block i j = A.block i j + (l.map (upperAddition i j)).sum := by
  induction l generalizing A with
  | nil =>
      cases h
      exact (add_zero _).symm
  | cons e l ih =>
      obtain ⟨⟨a, b⟩, B⟩ := e
      rw [addUpper] at h
      rw [List.map_cons, List.sum_cons, ← add_assoc]
      split at h
      · next hBelow =>
          have hNone : upperAddition i j ((a, b), B) = 0 := by
            apply if_neg
            simp only [Coord.upper, Prod.mk.injEq]
            omega
          rw [hNone, add_zero]
          exact ih h
      · next hAbove =>
          have hab : a ≤ b := Nat.le_of_not_lt hAbove
          cases hIndex : A.storageIndex a b with
          | error e =>
              rw [hIndex] at h
              cases h
          | ok k =>
              rw [hIndex] at h
              rw [← block_addContribution hab (storageIndex_eq_ok_iff.mp hIndex)]
              exact ih h

/-- Sums over the blocks of a dense matrix run over two indices. -/
theorem sum_placedBlocks {m n : Nat} (indices : List Nat) (L : Dense K m n)
    (f : Coord × Mat3 K → Mat3 K) :
    ((placedBlocks indices L).map f).sum =
      ∑ a : Fin indices.length, ∑ b : Fin indices.length,
        f ((indices.get a, indices.get b), L.blockAt a b) := by
  have hIndices : indices.zipIdx = List.ofFn fun a => (indices.get a, a.val) := by
    apply List.ext_getElem
    · simp
    · intro a h1 h2
      simp
  have hFlat (l : List (Nat × Nat)) (g : Nat × Nat → List (Coord × Mat3 K)) :
      ((l.flatMap g).map f).sum = (l.map fun x => ((g x).map f).sum).sum := by
    induction l with
    | nil => rfl
    | cons x l ih => rw [List.flatMap_cons, List.map_append, List.sum_append, ih, List.map_cons,
        List.sum_cons]
  rw [placedBlocks, hFlat, hIndices, List.map_ofFn, List.sum_ofFn]
  apply Finset.sum_congr rfl
  intro a _
  rw [Function.comp_apply, List.map_map, List.map_ofFn, List.sum_ofFn]
  rfl

/-- An addition of a symmetric dense matrix adds its node block `(a, b)` at every place whose row
and column have the indices of `a` and `b`, in whatever order the indices are, and changes nothing
else. -/
theorem block_addToBlocks {m n : Nat} {indices : List Nat} {L : Dense K m n}
    (hSymmetric : ∀ a b : Fin indices.length, (L.blockAt a b).transpose = L.blockAt b a)
    (h : A.addToBlocks indices L = .ok A') (i j : Nat) :
    A'.block i j = A.block i j +
      ∑ a : Fin indices.length, ∑ b : Fin indices.length,
        if indices.get a = i ∧ indices.get b = j then L.blockAt a b else 0 := by
  obtain ⟨_, _, B, hAdd, rfl⟩ := addUpper_of_addToBlocks h
  have hBlock : BlockMatrix.block { B with stale := true } i j = B.block i j := rfl
  rw [hBlock, block_addUpper hAdd, sum_placedBlocks]
  congr 1
  rcases Nat.lt_trichotomy i j with hlt | rfl | hgt
  · -- above the diagonal every block is added as it is
    simp only [upperAddition_above hlt]
  · -- on the diagonal the sum of the blocks is symmetric, so it is its own symmetric part
    have hTerm (a b : Fin indices.length) :
        upperAddition i i ((indices.get a, indices.get b), L.blockAt a b) =
          (if indices.get a = i ∧ indices.get b = i then L.blockAt a b else 0).symmetricPart := by
      rw [upperAddition_diagonal]
      split
      · rfl
      · exact Mat3.symmetricPart_zero.symm
    simp only [hTerm, ← Mat3.symmetricPart_sum]
    apply Mat3.symmetricPart_of_symmetric
    simp only [Mat3.transpose_sum]
    rw [Finset.sum_comm]
    apply Finset.sum_congr rfl
    intro b _
    apply Finset.sum_congr rfl
    intro a _
    by_cases hab : indices.get a = i ∧ indices.get b = i
    · rw [if_pos hab, if_pos hab.symm]
      exact hSymmetric a b
    · rw [if_neg hab, if_neg fun h => hab (And.symm h)]
      rfl
  · -- below the diagonal the transposed block on the other side is read
    rw [Finset.sum_comm]
    simp only [upperAddition_below hgt, hSymmetric]

/-! ### Diagonal blocks -/

/-- Whether the blocks on the diagonal are symmetric, so that the stored blocks stand for a
symmetric matrix. -/
def HasSymmetricDiagonal (A : BlockMatrix K) : Prop := ∀ i, (A.block i i).transpose = A.block i i

/-- A matrix whose stored blocks are zero is zero. -/
theorem block_of_zero (hZero : ∀ k, A.blocks.get k = 0) (i j : Nat) : A.block i j = 0 := by
  by_cases hStored : A.pattern.contains i j = true
  · obtain ⟨k, hk⟩ := Option.isSome_iff_exists.mp hStored
    rw [block_of_find? hk, hZero, oriented]
    split <;> rfl
  · exact block_of_not_contains hStored

theorem block_ofPattern (P : Pattern) (i j : Nat) :
    (ofPattern P : BlockMatrix K).block i j = 0 :=
  block_of_zero (fun k => Vector.getElem_replicate k.isLt) i j

theorem block_setZero (A : BlockMatrix K) (i j : Nat) : A.setZero.block i j = 0 :=
  block_of_zero (fun k => Vector.getElem_replicate k.isLt) i j

theorem hasSymmetricDiagonal_ofPattern (P : Pattern) :
    (ofPattern P : BlockMatrix K).HasSymmetricDiagonal := by
  intro i
  rw [block_ofPattern]
  rfl

theorem transpose_upperAddition (i : Nat) (e : Coord × Mat3 K) :
    (upperAddition i i e).transpose = upperAddition i i e := by
  obtain ⟨⟨a, b⟩, B⟩ := e
  rw [upperAddition_diagonal]
  split
  · exact Mat3.transpose_symmetricPart B
  · rfl

theorem HasSymmetricDiagonal.addToBlock {a b : Nat} {B : Mat3 K} (hA : A.HasSymmetricDiagonal)
    (h : A.addToBlock a b B = .ok A') : A'.HasSymmetricDiagonal := by
  intro i
  rcases Nat.lt_or_ge b a with hBelow | hAbove
  · rw [block_addToBlock (Nat.le_of_lt hBelow) (addToBlock_swap hBelow h), Mat3.transpose_add, hA i,
      transpose_upperAddition]
  · rw [block_addToBlock hAbove h, Mat3.transpose_add, hA i, transpose_upperAddition]

theorem HasSymmetricDiagonal.addToBlocks {m n : Nat} {indices : List Nat} {L : Dense K m n}
    (hA : A.HasSymmetricDiagonal) (h : A.addToBlocks indices L = .ok A') :
    A'.HasSymmetricDiagonal := by
  intro i
  obtain ⟨_, _, B, hAdd, rfl⟩ := addUpper_of_addToBlocks h
  have hBlock : BlockMatrix.block { B with stale := true } i i = B.block i i := rfl
  have hSum (l : List (Coord × Mat3 K)) :
      (l.map (upperAddition i i)).sum.transpose = (l.map (upperAddition i i)).sum := by
    induction l with
    | nil => rfl
    | cons e l ih =>
        rw [List.map_cons, List.sum_cons, Mat3.transpose_add, transpose_upperAddition, ih]
  rw [hBlock, block_addUpper hAdd, Mat3.transpose_add, hA i, hSum]

/-- A stored block on the diagonal is symmetric if the matrix has a symmetric diagonal. -/
theorem HasSymmetricDiagonal.transpose_get (hA : A.HasSymmetricDiagonal)
    {k : Fin A.pattern.entries.size} (hk : (A.pattern.entry k).1 = (A.pattern.entry k).2) :
    (A.blocks.get k).transpose = A.blocks.get k := by
  have hCoord : A.pattern.entry k =
      Coord.upper ((A.pattern.entry k).1, (A.pattern.entry k).1) := by
    rw [Coord.upper_eq_self (Nat.le_refl _)]
    exact Prod.ext rfl hk.symm
  have hBlock := block_of_find? (Pattern.find?_eq_some_iff.mpr hCoord)
  rw [oriented, if_pos (Nat.le_refl _)] at hBlock
  rw [← hBlock]
  exact hA _

/-- The two blocks at mirrored places are transposes of each other. -/
theorem HasSymmetricDiagonal.transpose_block (hA : A.HasSymmetricDiagonal) (i j : Nat) :
    (A.block i j).transpose = A.block j i := by
  rcases Nat.lt_trichotomy i j with hlt | rfl | hgt
  · exact transpose_block_of_lt hlt
  · exact hA i
  · rw [← transpose_block_of_lt hgt, Mat3.transpose_transpose]

theorem HasSymmetricDiagonal.get_toDense_comm (hA : A.HasSymmetricDiagonal) (r c : Fin A.dim) :
    A.toDense.get r c = A.toDense.get c r := by
  rw [get_toDense, get_toDense, ← hA.transpose_block (r.val / 3), Mat3.get_transpose]

end Exact

end Elastodynamics.Sparse.BlockMatrix
