import Elastodynamics.Proofs.Outcome
import Elastodynamics.Proofs.Sparse.Canonical
/-!
Sparsity patterns as they are laid out in memory: the offset of every block row, the offset of the
end, and the block columns of all rows. A layout is built from an ordered set of coordinates by
appending block after block and closing rows on the way, rows are cut out of the columns between two
offsets, and a block is found by a binary search in its row. Whatever is built in this way is the
layout of a pattern, and reading it never leaves the data.
-/
namespace Elastodynamics.Sparse

namespace Coord

/-- Adds a coordinate to an ordered set, unless the set has it. -/
def insert (c : Coord) : List Coord → List Coord
  | [] => [c]
  | d :: l => if c.before d then c :: d :: l else if c = d then d :: l else d :: insert c l

theorem mem_insert {b c : Coord} {l : List Coord} : b ∈ insert c l ↔ b = c ∨ b ∈ l := by
  induction l with
  | nil => simp [insert]
  | cons d l ih =>
      rw [insert]
      split
      · exact List.mem_cons
      · split
        · next hSame =>
            rw [hSame, List.mem_cons]
            exact ⟨.inr, fun h => h.elim .inl id⟩
        · rw [List.mem_cons, ih, List.mem_cons]
          exact or_left_comm

theorem pairwise_insert {c : Coord} {l : List Coord}
    (h : l.Pairwise fun a b => a.before b = true) :
    (insert c l).Pairwise fun a b => a.before b = true := by
  induction l with
  | nil => exact List.pairwise_singleton _ _
  | cons d l ih =>
      obtain ⟨hd, hl⟩ := List.pairwise_cons.mp h
      rw [insert]
      split
      · next hBefore =>
          refine List.pairwise_cons.mpr ⟨fun b hb => ?_, h⟩
          rcases List.mem_cons.mp hb with rfl | hb
          · exact hBefore
          · exact before_trans hBefore (hd b hb)
      · next hNot =>
          split
          · exact h
          · next hne =>
              refine List.pairwise_cons.mpr ⟨fun b hb => ?_, ih hl⟩
              rcases mem_insert.mp hb with rfl | hb
              · exact (before_total hne).resolve_left hNot
              · exact hd b hb

end Coord

/-- A pattern in compressed rows: row `i` has the columns at the places from `offsets[i]` up to
`offsets[i + 1]`. -/
structure Layout where
  /-- The number of block rows. -/
  size : Nat
  offsets : List Nat
  columns : List Nat
deriving Repr, DecidableEq

namespace Layout

/-! ### Construction -/

/-- The layout without blocks. -/
def new (size : Nat) : Layout := ⟨size, List.replicate (size + 1) 0, []⟩

/-- Collects the upper coordinates of blocks in an ordered set. The first coordinate outside of the
matrix is an error. -/
def collect (size : Nat) : List Coord → List Coord → Except Error (List Coord)
  | set, [] => .ok set
  | set, (i, j) :: coords =>
    if size ≤ i ∨ size ≤ j then .error (.indexOutOfBounds i j size)
    else collect size (Coord.insert (min i j, max i j) set) coords

/-- Closes rows until there are `count` offsets. A row that is closed ends behind the last block so
far. -/
def closeRows (L : Layout) (count : Nat) : Layout :=
  if L.offsets.length < count then
    closeRows { L with offsets := L.offsets ++ [L.columns.length] } count
  else L
termination_by count - L.offsets.length
decreasing_by
  simp only [List.length_append, List.length_singleton]
  omega

/-- Appends a block to its row, after the rows before it have been closed. -/
def push (L : Layout) (c : Coord) : Layout :=
  let L := L.closeRows (c.1 + 1)
  { L with columns := L.columns ++ [c.2] }

/-- The layout of the given blocks, which may come in any order and on both sides of the
diagonal. -/
def ofEntries (size : Nat) (coords : List Coord) : Except Error Layout := do
  let blocks ← collect size [] coords
  return (blocks.foldl push ⟨size, [0], []⟩).closeRows (size + 1)

/-- Compressed data as a layout. It is kept as it is if it passes the validation. -/
def ofData (size : Nat) (offsets columns : List Nat) : Except (Failure Error) Layout :=
  (Pattern.ofCompressed size offsets columns).map fun _ => ⟨size, offsets, columns⟩

/-- A layout that was built in one of the three ways. -/
inductive Built : Layout → Prop where
  | new (size : Nat) : Built (new size)
  | ofEntries {size : Nat} {coords : List Coord} {L : Layout} (h : ofEntries size coords = .ok L) :
      Built L
  | ofData {size : Nat} {offsets columns : List Nat} {L : Layout}
      (h : ofData size offsets columns = .ok L) : Built L

/-! ### Reading -/

/-- The columns of row `i`. There are none to give if an offset does not exist, or if the two
offsets of the row cut nothing out of the columns. -/
def row? (L : Layout) (i : Nat) : Option (List Nat) :=
  match L.offsets[i]?, L.offsets[i + 1]? with
  | some first, some last =>
    if first ≤ last ∧ last ≤ L.columns.length then some ((L.columns.drop first).take (last - first))
    else none
  | _, _ => none

/-- The coordinates of the blocks, row after row, if all rows can be read. -/
def blocks? (L : Layout) : Option (List Coord) := do
  let rows ← (List.range L.size).mapM fun i => (L.row? i).map fun row => row.map fun j => (i, j)
  return rows.flatten

/-- The place of a column in a row, by binary search. -/
def searchRow (row : List Nat) (j : Nat) : Option Nat :=
  let places := (row.map fun j => (0, j)).toArray
  (Pattern.search places (0, j) 0 places.size (Nat.le_refl _)).map Fin.val

/-- The storage index of the block at `(i, j)` or at `(j, i)`: the offset of its row and the place
in the row. There is no answer if the row cannot be read. -/
def find? (L : Layout) (i j : Nat) : Option (Option Nat) :=
  if L.size ≤ max i j then some none
  else
    match L.offsets[min i j]?, L.row? (min i j) with
    | some first, some row => some ((searchRow row (max i j)).map (first + ·))
    | _, _ => none

/-- The first of the listed blocks that is not found. -/
def findMissing (L : Layout) : List Coord → Option (Option Coord)
  | [] => some none
  | c :: blocks => do
    let place ← L.find? c.1 c.2
    if place.isSome then L.findMissing blocks else return some c

/-- The first block of `M` that `L` does not have. -/
def firstMissing? (L M : Layout) : Option (Option Coord) := do
  let blocks ← M.blocks?
  L.findMissing blocks

end Layout

namespace Pattern

/-- The layout of a pattern. -/
def layout (P : Pattern) : Layout := ⟨P.size, P.offsets, P.columns⟩

end Pattern

namespace Layout

/-! ### Blocks appended one after the other -/

/-- The number of blocks in rows before row `k`. -/
def blocksBefore (blocks : List Coord) (k : Nat) : Nat := blocks.countP fun c => c.1 < k

theorem blocksBefore_succ (blocks : List Coord) (k : Nat) : blocksBefore blocks (k + 1) =
    blocksBefore blocks k + (blocks.filter fun c => c.1 == k).length := by
  induction blocks with
  | nil => rfl
  | cons c blocks ih =>
      simp only [blocksBefore, List.countP_cons, List.filter_cons, decide_eq_true_eq,
        beq_iff_eq] at ih ⊢
      rcases Nat.lt_trichotomy c.1 k with hLt | hEq | hGt
      · simp only [hLt, Nat.lt_succ_of_lt hLt, Nat.ne_of_lt hLt, if_true, if_false]
        omega
      · simp only [hEq, Nat.lt_irrefl, Nat.lt_succ_self, if_true, if_false, List.length_cons]
        omega
      · have hNot : ¬ c.1 < k := by omega
        have hNotSucc : ¬ c.1 < k + 1 := by omega
        simp only [hNot, hNotSucc, Nat.ne_of_gt hGt, if_false]
        omega

/-- The rows before row `k` have as many columns as there are blocks in them. -/
theorem sum_take_rows (P : Pattern) {k : Nat} (hk : k ≤ P.size) :
    ((P.rows.toList.map List.length).take k).sum = blocksBefore P.entries.toList k := by
  rw [Pattern.rows_eq, ← List.map_take, ← List.map_take, List.take_range, Nat.min_eq_left hk]
  clear hk
  induction k with
  | zero => simp [blocksBefore]
  | succ k ih =>
      rw [List.range_succ, List.map_append, List.map_append, List.sum_append, ih, blocksBefore_succ]
      simp [Pattern.storedRow]

/-- Each offset of a pattern is the number of blocks in the rows before. -/
theorem offsets_eq (P : Pattern) :
    P.offsets = (List.range (P.size + 1)).map (blocksBefore P.entries.toList) := by
  apply List.ext_getElem?
  intro k
  by_cases hk : k ≤ P.size
  · have hLength : k ≤ (P.rows.toList.map List.length).length := by simpa [Pattern.rows_eq] using hk
    rw [Pattern.offsets, getElem?_offsetsFrom 0 hLength, Nat.zero_add, sum_take_rows P hk,
      List.getElem?_map, List.getElem?_range (Nat.lt_succ_of_le hk), Option.map_some]
  · rw [List.getElem?_eq_none, List.getElem?_eq_none]
    · simpa using Nat.succ_le_of_lt (Nat.lt_of_not_le hk)
    · rw [P.describes.length_offsets]
      omega

/-- Whether a layout holds the given blocks, all of them in rows up to the one that is open. -/
structure Holds (L : Layout) (blocks : List Coord) : Prop where
  offsets : L.offsets = (List.range L.offsets.length).map (blocksBefore blocks)
  columns : L.columns = blocks.map Prod.snd
  lt_length : ∀ c ∈ blocks, c.1 < L.offsets.length

theorem closeRows_eq (L : Layout) (count : Nat) : L.closeRows count =
    { L with offsets :=
        L.offsets ++ List.replicate (count - L.offsets.length) L.columns.length } := by
  fun_induction closeRows L count with
  | case1 L h ih =>
      have hCount : count - L.offsets.length = count - (L.offsets.length + 1) + 1 := by omega
      simp only [List.length_append, List.length_singleton] at ih
      rw [ih, hCount, List.replicate_succ]
      simp
  | case2 L h => simp [Nat.sub_eq_zero_of_le (Nat.le_of_not_lt h)]

variable {L : Layout} {blocks : List Coord}

theorem length_closeRows (L : Layout) (count : Nat) :
    (L.closeRows count).offsets.length = max L.offsets.length count := by
  rw [closeRows_eq]
  simp only [List.length_append, List.length_replicate]
  omega

/-- Rows that are closed after all blocks begin behind the last block. -/
theorem Holds.closeRows (h : L.Holds blocks) (count : Nat) : (L.closeRows count).Holds blocks where
  offsets := by
    have hMax : max L.offsets.length count =
        L.offsets.length + (count - L.offsets.length) := by omega
    -- all blocks lie in rows that have been opened, so they are before every row that is closed now
    have hClosed : List.replicate (count - L.offsets.length) L.columns.length =
        (List.range (count - L.offsets.length)).map fun k =>
          blocksBefore blocks (L.offsets.length + k) := by
      symm
      refine List.eq_replicate_iff.mpr ⟨by simp, fun x hx => ?_⟩
      obtain ⟨k, _, rfl⟩ := List.mem_map.mp hx
      rw [h.columns, List.length_map, blocksBefore, List.countP_eq_length]
      intro c hc
      have hLt := h.lt_length c hc
      simp only [decide_eq_true_eq]
      omega
    rw [length_closeRows, hMax, List.range_add, List.map_append, ← h.offsets, List.map_map,
      closeRows_eq, hClosed]
    rfl
  columns := by
    rw [closeRows_eq]
    exact h.columns
  lt_length c hc := by
    rw [length_closeRows]
    exact Nat.lt_of_lt_of_le (h.lt_length c hc) (Nat.le_max_left _ _)

theorem length_push {c : Coord} (hNext : L.offsets.length ≤ c.1 + 1) :
    (L.push c).offsets.length = c.1 + 1 := by
  rw [push, length_closeRows, Nat.max_eq_right hNext]

/-- A block that is not before the open row is appended behind the others. -/
theorem Holds.push (h : L.Holds blocks) {c : Coord} (hNext : L.offsets.length ≤ c.1 + 1) :
    (L.push c).Holds (blocks ++ [c]) where
  offsets := by
    rw [length_push hNext]
    have hClosed := (h.closeRows (c.1 + 1)).offsets
    rw [length_closeRows, Nat.max_eq_right hNext] at hClosed
    refine hClosed.trans (List.map_congr_left fun k hk => ?_)
    have hLe : ¬ c.1 < k := Nat.not_lt_of_le (Nat.le_of_lt_succ (List.mem_range.mp hk))
    simp [blocksBefore, hLe]
  columns := by
    rw [List.map_append, ← (h.closeRows (c.1 + 1)).columns]
    rfl
  lt_length d hd := by
    rw [length_push hNext]
    rcases List.mem_append.mp hd with hd | hd
    · exact Nat.lt_of_lt_of_le (h.lt_length d hd) hNext
    · rw [List.mem_singleton.mp hd]
      exact Nat.lt_succ_self _

/-- Blocks in the order of their rows are appended one after the other. -/
theorem Holds.foldl_push (h : L.Holds blocks) {rest : List Coord}
    (hRows : rest.Pairwise fun a b => a.1 ≤ b.1)
    (hNext : ∀ c ∈ rest, L.offsets.length ≤ c.1 + 1) :
    (rest.foldl Layout.push L).Holds (blocks ++ rest) := by
  induction rest generalizing L blocks with
  | nil => rwa [List.append_nil]
  | cons c rest ih =>
      obtain ⟨hFirst, hRest⟩ := List.pairwise_cons.mp hRows
      have hc := hNext c List.mem_cons_self
      -- now the row of the block is open, and no block that follows is before it
      have hOpen : ∀ d ∈ rest, (L.push c).offsets.length ≤ d.1 + 1 := by
        intro d hd
        rw [length_push hc]
        exact Nat.succ_le_succ (hFirst d hd)
      have hAll := ih (h.push hc) hRest hOpen
      rwa [List.append_assoc] at hAll

/-- While blocks of rows below `n` are appended, no row behind them is closed. -/
theorem length_foldl_push {n : Nat} (hLength : L.offsets.length ≤ n + 1) {rest : List Coord}
    (hLt : ∀ c ∈ rest, c.1 < n) : (rest.foldl push L).offsets.length ≤ n + 1 := by
  induction rest generalizing L with
  | nil => exact hLength
  | cons c rest ih =>
      obtain ⟨hc, hRest⟩ := List.forall_mem_cons.mp hLt
      refine ih ?_ hRest
      rw [push, length_closeRows]
      omega

theorem size_foldl_push (rest : List Coord) : (rest.foldl push L).size = L.size := by
  induction rest generalizing L with
  | nil => rfl
  | cons c rest ih =>
      rw [List.foldl_cons, ih, push, closeRows_eq]

/-- The entries of a pattern, appended one after the other, give its layout. -/
theorem foldl_push_entries (P : Pattern) :
    (P.entries.toList.foldl push ⟨P.size, [0], []⟩).closeRows (P.size + 1) = P.layout := by
  have hStart : (⟨P.size, [0], []⟩ : Layout).Holds [] := ⟨rfl, rfl, nofun⟩
  have hRows : P.entries.toList.Pairwise fun a b => a.1 ≤ b.1 := by
    apply P.sorted.imp
    intro a b hab
    rw [Coord.before_iff] at hab
    omega
  have hHolds := (hStart.foldl_push hRows fun c _ => Nat.succ_le_succ (Nat.zero_le _)).closeRows
    (P.size + 1)
  have hLength : (P.entries.toList.foldl push ⟨P.size, [0], []⟩).offsets.length ≤ P.size + 1 := by
    refine length_foldl_push (Nat.succ_le_succ (Nat.zero_le _)) fun c hc => ?_
    have hBounds := P.bounded c hc
    omega
  have hOffsets := hHolds.offsets
  rw [length_closeRows, Nat.max_eq_right hLength, List.nil_append, ← offsets_eq] at hOffsets
  have hColumns := hHolds.columns
  rw [List.nil_append, ← Pattern.columns] at hColumns
  have hSize : ((P.entries.toList.foldl push ⟨P.size, [0], []⟩).closeRows (P.size + 1)).size =
      P.size := by
    rw [closeRows_eq, size_foldl_push]
  generalize (P.entries.toList.foldl push ⟨P.size, [0], []⟩).closeRows (P.size + 1) = M at *
  cases M
  cases hSize
  cases hOffsets
  cases hColumns
  rfl

/-! ### The ordered set of blocks -/

theorem collect_eq (size : Nat) (set coords : List Coord) : collect size set coords =
    match coords.find? fun c => !Pattern.inside size c with
    | some (i, j) => .error (.indexOutOfBounds i j size)
    | none => .ok (coords.foldl (fun set c => Coord.insert c.upper set) set) := by
  induction coords generalizing set with
  | nil => rfl
  | cons c coords ih =>
      obtain ⟨i, j⟩ := c
      rw [collect]
      by_cases hInside : Pattern.inside size (i, j) = true
      · have hLt := Pattern.inside_iff.mp hInside
        rw [if_neg (by omega), ih, List.find?_cons_of_neg (by simp [hInside])]
        rfl
      · have hLt := mt Pattern.inside_iff.mpr hInside
        rw [if_pos (by simp only [not_and_or, not_lt] at hLt; exact hLt),
          List.find?_cons_of_pos (by simpa using hInside)]

theorem mem_foldl_insert {set coords : List Coord} {b : Coord} :
    b ∈ coords.foldl (fun set c => Coord.insert c.upper set) set ↔
      b ∈ set ∨ ∃ c ∈ coords, c.upper = b := by
  induction coords generalizing set with
  | nil => simp
  | cons c coords ih =>
      rw [List.foldl_cons, ih, Coord.mem_insert]
      simp only [List.mem_cons, exists_eq_or_imp, eq_comm (a := b), or_assoc]
      exact or_left_comm

theorem pairwise_foldl_insert {set : List Coord} (coords : List Coord)
    (h : set.Pairwise fun a b => a.before b = true) :
    (coords.foldl (fun set c => Coord.insert c.upper set) set).Pairwise
      fun a b => a.before b = true := by
  induction coords generalizing set with
  | nil => exact h
  | cons c coords ih => exact ih (Coord.pairwise_insert h)

/-- The layout that is built from coordinates is that of the pattern with these coordinates, and the
errors are the same. -/
theorem ofEntries_eq (size : Nat) (coords : List Coord) :
    ofEntries size coords = (Pattern.ofEntries size coords).map Pattern.layout := by
  rw [ofEntries, collect_eq]
  cases hFind : coords.find? fun c => !Pattern.inside size c with
  | some c =>
      rw [Pattern.ofEntries, hFind]
      rfl
  | none =>
      have hInside : ∀ c ∈ coords, Pattern.inside size c = true := by
        simpa [List.find?_eq_none] using hFind
      obtain ⟨P, hP⟩ : ∃ P, Pattern.ofEntries size coords = .ok P :=
        ⟨_, Pattern.ofEntries_eq_ok_iff.mpr ⟨hInside, rfl⟩⟩
      have hSet : coords.foldl (fun set c => Coord.insert c.upper set) [] = P.entries.toList :=
        Coord.eq_of_mem_iff (pairwise_foldl_insert coords .nil) P.sorted fun c => by
          have hMem := Pattern.mem_of_ofEntries hP (c := c)
          rw [← Array.mem_toList_iff] at hMem
          rw [mem_foldl_insert, hMem]
          simp
      rw [hP]
      show Except.ok ((List.foldl push ⟨size, [0], []⟩ _).closeRows (size + 1)) = .ok P.layout
      rw [hSet, ← Pattern.size_of_ofEntries hP, foldl_push_entries]

theorem ofData_eq (size : Nat) (offsets columns : List Nat) : ofData size offsets columns =
    (Pattern.ofCompressed size offsets columns).map Pattern.layout := by
  rw [ofData]
  cases hResult : Pattern.ofCompressed size offsets columns with
  | error e => rfl
  | ok P =>
      obtain ⟨rfl, rfl, rfl⟩ := Pattern.ofCompressed_eq_ok_iff.mp hResult
      rfl

theorem new_eq (size : Nat) : new size = (Pattern.empty size).layout := by
  have hStart := foldl_push_entries (Pattern.empty size)
  rw [closeRows_eq] at hStart
  rw [← hStart, new, List.replicate_succ]
  rfl

/-- Every layout that was built is the layout of a pattern. -/
theorem Built.exists_pattern {L : Layout} (h : L.Built) : ∃ P : Pattern, P.layout = L := by
  cases h with
  | new size => exact ⟨Pattern.empty size, (new_eq size).symm⟩
  | ofEntries h =>
      rw [ofEntries_eq] at h
      obtain ⟨P, _, hP⟩ := map_eq_ok_iff.mp h
      exact ⟨P, hP⟩
  | ofData h =>
      rw [ofData_eq] at h
      obtain ⟨P, _, hP⟩ := map_eq_ok_iff.mp h
      exact ⟨P, hP⟩

/-! ### Rows and lookups -/

variable (P : Pattern) {i j : Nat}

/-- A place in a stored row, behind the blocks of the rows before, is the place of the block. -/
theorem getElem?_entries {l : Nat} (hi : i < P.size) (hl : (P.storedRow i)[l]? = some j) :
    P.entries.toList[blocksBefore P.entries.toList i + l]? = some (i, j) := by
  obtain ⟨hLt, hj⟩ := List.getElem?_eq_some_iff.mp hl
  have hDrop := Pattern.drop_placed 0 i P.rows.toList
  rw [sum_take_rows P (Nat.le_of_lt hi), P.placed_rows, Nat.zero_add] at hDrop
  obtain ⟨hRow, hGet⟩ := List.getElem?_eq_some_iff.mp (P.getElem?_rows hi)
  rw [← List.getElem?_drop, hDrop, List.drop_eq_getElem_cons hRow, hGet, Pattern.placed,
    List.getElem?_append_left (by simpa using hLt), List.getElem?_map, hl]
  rfl

end Layout

end Elastodynamics.Sparse
