import Elastodynamics.Proofs.Sparse.Compressed
import Elastodynamics.Proofs.Sparse.Construction
/-!
Validation of compressed patterns. Data that describes a pattern is accepted and read back from it.
Other data is rejected, with one exception: rows are cut out of the columns before the next offset
is looked at, so an offset behind the last column, which only a later decrease would expose, leaves
nothing to cut and no answer.
-/
namespace Elastodynamics.Sparse.Pattern

variable {size : Nat} {offsets columns : List Nat}

/-- The columns between every two offsets in a row. -/
def cutRows (columns : List Nat) : (offsets : List Nat) → List (List Nat)
  | first :: last :: offsets =>
    (columns.drop first).take (last - first) :: cutRows columns (last :: offsets)
  | _ => []

/-- Whether offsets never decrease, and the rows that they cut out of the columns, counted from row
`i`, are strictly increasing and lie in the upper triangle. -/
structure InOrder (size : Nat) (columns : List Nat) (i : Nat) (offsets : List Nat) : Prop where
  monotone : offsets.IsChain (· ≤ ·)
  increasing : ∀ row ∈ cutRows columns offsets, row.Pairwise (· < ·)
  upper : ∀ k row, (cutRows columns offsets)[k]? = some row → ∀ j ∈ row, i + k ≤ j ∧ j < size

/-- Whether the ends of compressed data are in place. -/
structure Framed (size : Nat) (offsets columns : List Nat) : Prop where
  length_offsets : offsets.length = size + 1
  first : offsets.head? = some 0
  last : offsets.getLast? = some columns.length

/-- Whether compressed data describes a pattern. -/
structure Describes (size : Nat) (offsets columns : List Nat) : Prop
    extends Framed size offsets columns where
  inOrder : InOrder size columns 0 offsets

/-- Whether the offsets of rows, counted from row `i`, are in order up to a row that begins within
the columns and ends behind the last one. -/
def Overshoots (size : Nat) (columns : List Nat) (i : Nat) (offsets : List Nat) : Prop :=
  ∃ k first last, offsets[k]? = some first ∧ offsets[k + 1]? = some last ∧
    first ≤ columns.length ∧ columns.length < last ∧
    InOrder size columns i (offsets.take (k + 1))

/-! ### Rows in order -/

/-- Whether row `i` is in order if it begins and ends at the given places. -/
structure RowInOrder (size : Nat) (columns : List Nat) (i first last : Nat) : Prop where
  le : first ≤ last
  increasing : ((columns.drop first).take (last - first)).Pairwise (· < ·)
  upper : ∀ j ∈ (columns.drop first).take (last - first), i ≤ j ∧ j < size

variable {i first last : Nat}

theorem inOrder_cons_iff : InOrder size columns i (first :: last :: offsets) ↔
    RowInOrder size columns i first last ∧ InOrder size columns (i + 1) (last :: offsets) := by
  constructor
  · rintro ⟨hMonotone, hIncreasing, hUpper⟩
    rw [List.isChain_cons_cons] at hMonotone
    rw [cutRows, List.forall_mem_cons] at hIncreasing
    refine ⟨⟨hMonotone.1, hIncreasing.1, hUpper 0 _ rfl⟩, hMonotone.2, hIncreasing.2, ?_⟩
    intro k row hRow
    rw [Nat.add_assoc, Nat.add_comm 1]
    exact hUpper (k + 1) row hRow
  · rintro ⟨⟨hLe, hRow, hBounds⟩, hMonotone, hIncreasing, hUpper⟩
    refine ⟨List.isChain_cons_cons.mpr ⟨hLe, hMonotone⟩,
      List.forall_mem_cons.mpr ⟨hRow, hIncreasing⟩, ?_⟩
    rintro (_ | k) row hk
    · cases hk
      exact hBounds
    · rw [Nat.add_comm k, ← Nat.add_assoc]
      exact hUpper k row hk

theorem inOrder_singleton : InOrder size columns i [first] where
  monotone := .singleton first
  increasing := nofun
  upper := nofun

/-- An overshoot is in the first row, or behind a first row in order. -/
theorem overshoots_cons_iff (hFirst : first ≤ columns.length) :
    Overshoots size columns i (first :: last :: offsets) ↔ columns.length < last ∨
      RowInOrder size columns i first last ∧
        Overshoots size columns (i + 1) (last :: offsets) := by
  constructor
  · rintro ⟨_ | k, first', last', hBegin, hEnd, hInside, hOutside, hBefore⟩
    · cases hEnd
      exact .inl hOutside
    · rw [List.take_succ_cons, List.take_succ_cons, inOrder_cons_iff] at hBefore
      exact .inr ⟨hBefore.1, k, first', last', hBegin, hEnd, hInside, hOutside, hBefore.2⟩
  · rintro (hOutside | ⟨hRow, k, first', last', hBegin, hEnd, hInside, hOutside, hBefore⟩)
    · exact ⟨0, first, last, rfl, rfl, hFirst, hOutside, inOrder_singleton⟩
    · refine ⟨k + 1, first', last', hBegin, hEnd, hInside, hOutside, ?_⟩
      rw [List.take_succ_cons, List.take_succ_cons, inOrder_cons_iff]
      exact ⟨hRow, hBefore⟩

/-! ### Decoding -/

theorem increasing_iff {row : List Nat} : increasing row = true ↔ row.Pairwise (· < ·) := by
  rw [← List.isChain_iff_pairwise]
  induction row with
  | nil => exact ⟨fun _ => .nil, fun _ => rfl⟩
  | cons a row ih =>
      cases row with
      | nil => exact ⟨fun _ => .singleton a, fun _ => rfl⟩
      | cons b row =>
          rw [increasing, Bool.and_eq_true, decide_eq_true_iff, ih, List.isChain_cons_cons]

/-- The coordinates in rows, counted from row `i`. -/
def placed (i : Nat) : List (List Nat) → List Coord
  | [] => []
  | row :: rows => row.map (fun j => (i, j)) ++ placed (i + 1) rows

/-- A first row within the columns is either in order and placed before the rows behind it, or
rejected. -/
theorem decodeRows_cons (size : Nat) (columns : List Nat) (i first : Nat) {last : Nat}
    (offsets : List Nat) (hLast : last ≤ columns.length) :
    (RowInOrder size columns i first last ∧
      decodeRows size columns i (first :: last :: offsets) =
        (decodeRows size columns (i + 1) (last :: offsets)).map
          (((columns.drop first).take (last - first)).map (fun j => (i, j)) ++ ·)) ∨
    (¬ RowInOrder size columns i first last ∧ ∃ reason,
      decodeRows size columns i (first :: last :: offsets) =
        .error (.rejected (.invalidPattern reason))) := by
  rw [decodeRows]
  by_cases hDecrease : last < first
  · rw [if_pos hDecrease]
    exact .inr ⟨fun h => absurd h.le (Nat.not_le_of_lt hDecrease), _, rfl⟩
  rw [if_neg hDecrease, if_neg (Nat.not_lt_of_le hLast)]
  dsimp only
  generalize hRow : (columns.drop first).take (last - first) = row
  by_cases hUpper : (row.any fun j => j < i || size ≤ j) = true
  · rw [if_pos hUpper]
    refine .inr ⟨fun h => ?_, _, rfl⟩
    obtain ⟨j, hj, hOutside⟩ := List.any_eq_true.mp hUpper
    have hBounds := h.upper j (hRow ▸ hj)
    simp only [Bool.or_eq_true, decide_eq_true_eq] at hOutside
    omega
  rw [if_neg hUpper]
  cases hIncreasing : increasing row with
  | false =>
      refine .inr ⟨fun h => ?_, _, rfl⟩
      rw [increasing_iff.mpr (hRow ▸ h.increasing)] at hIncreasing
      cases hIncreasing
  | true =>
      left
      constructor
      · refine ⟨Nat.le_of_not_lt hDecrease, hRow ▸ increasing_iff.mp hIncreasing, ?_⟩
        intro j hj
        by_contra hOutside
        refine hUpper (List.any_eq_true.mpr ⟨j, hRow ▸ hj, ?_⟩)
        simp only [Bool.or_eq_true, decide_eq_true_eq]
        omega
      · cases decodeRows size columns (i + 1) (last :: offsets) <;> rfl

/-- Decoding succeeds, overshoots or rejects the rows. -/
theorem decodeRows_outcome (size : Nat) (columns : List Nat) (i : Nat) {offsets : List Nat}
    (hFirst : ∀ x ∈ offsets.head?, x ≤ columns.length) :
    (InOrder size columns i offsets ∧ (∀ x ∈ offsets, x ≤ columns.length) ∧
      decodeRows size columns i offsets = .ok (placed i (cutRows columns offsets))) ∨
    (Overshoots size columns i offsets ∧ decodeRows size columns i offsets = .error .stuck) ∨
    (¬ InOrder size columns i offsets ∧ ¬ Overshoots size columns i offsets ∧ ∃ reason,
      decodeRows size columns i offsets = .error (.rejected (.invalidPattern reason))) := by
  induction offsets generalizing i with
  | nil => exact .inl ⟨⟨.nil, nofun, nofun⟩, nofun, rfl⟩
  | cons first offsets ih =>
      cases offsets with
      | nil => exact .inl ⟨inOrder_singleton, by simpa using hFirst, rfl⟩
      | cons last offsets =>
          replace hFirst : first ≤ columns.length := hFirst first rfl
          rw [inOrder_cons_iff, overshoots_cons_iff hFirst]
          rcases Nat.lt_or_ge columns.length last with hOutside | hLast
          · right
            left
            rw [decodeRows, if_neg (by omega), if_pos hOutside]
            exact ⟨.inl hOutside, rfl⟩
          · have hNot := Nat.not_lt_of_le hLast
            rcases decodeRows_cons size columns i first offsets hLast with
              ⟨hRow, hDecode⟩ | ⟨hRow, reason, hDecode⟩
            · rw [hDecode]
              rcases ih (i + 1) (fun x hx => by cases hx; exact hLast) with
                ⟨hRest, hInside, hOk⟩ | ⟨hRest, hStuck⟩ | ⟨hOrder, hRest, reason, hError⟩
              · rw [hOk]
                exact .inl ⟨⟨hRow, hRest⟩, List.forall_mem_cons.mpr ⟨hFirst, hInside⟩, rfl⟩
              · rw [hStuck]
                exact .inr (.inl ⟨.inr ⟨hRow, hRest⟩, rfl⟩)
              · rw [hError]
                exact .inr (.inr ⟨fun h => hOrder h.2, fun h => h.elim hNot fun h => hRest h.2,
                  reason, rfl⟩)
            · exact .inr (.inr ⟨fun h => hRow h.1, fun h => h.elim hNot fun h => hRow h.1,
                reason, hDecode⟩)

/-! ### The pattern that is described -/

theorem map_snd_placed (i : Nat) (rows : List (List Nat)) :
    (placed i rows).map Prod.snd = rows.flatten := by
  induction rows generalizing i with
  | nil => rfl
  | cons row rows ih => simp [placed, ih, Function.comp_def]

theorem mem_placed {i : Nat} {rows : List (List Nat)} {c : Coord} :
    c ∈ placed i rows ↔ ∃ k row, rows[k]? = some row ∧ c.1 = i + k ∧ c.2 ∈ row := by
  induction rows generalizing i with
  | nil => simp [placed]
  | cons row rows ih =>
      rw [placed, List.mem_append, ih]
      constructor
      · rintro (hc | ⟨k, row', hRow, hFst, hSnd⟩)
        · obtain ⟨j, hj, rfl⟩ := List.mem_map.mp hc
          exact ⟨0, row, rfl, rfl, hj⟩
        · exact ⟨k + 1, row', hRow, by omega, hSnd⟩
      · rintro ⟨_ | k, row', hRow, hFst, hSnd⟩
        · cases hRow
          exact .inl (List.mem_map.mpr ⟨c.2, hSnd, Prod.ext hFst.symm rfl⟩)
        · exact .inr ⟨k, row', hRow, by omega, hSnd⟩

/-- The row that was placed at `k` is found there. -/
theorem row_placed {i k : Nat} {rows : List (List Nat)} (h : k < rows.length) :
    ((placed i rows).filter fun c => c.1 == i + k).map Prod.snd = rows[k] := by
  induction rows generalizing i k with
  | nil => cases h
  | cons row rows ih =>
      rw [placed, List.filter_append, List.map_append]
      cases k with
      | zero =>
          have hHead : (row.map fun j => (i, j)).filter (fun c => c.1 == i + 0) =
              row.map fun j => (i, j) := by
            simp
          have hTail : (placed (i + 1) rows).filter (fun c => c.1 == i + 0) = [] := by
            rw [List.filter_eq_nil_iff]
            intro c hc
            obtain ⟨k, _, _, hFst, _⟩ := mem_placed.mp hc
            simp only [beq_iff_eq]
            omega
          rw [hHead, hTail]
          simp [Function.comp_def]
      | succ k =>
          have hHead : (row.map fun j => (i, j)).filter (fun c => c.1 == i + (k + 1)) = [] := by
            simp
          rw [hHead, show i + (k + 1) = i + 1 + k by omega]
          exact ih (Nat.lt_of_succ_lt_succ h)

theorem pairwise_placed {i : Nat} {rows : List (List Nat)}
    (h : ∀ row ∈ rows, row.Pairwise (· < ·)) :
    (placed i rows).Pairwise fun a b => a.before b = true := by
  induction rows generalizing i with
  | nil => exact .nil
  | cons row rows ih =>
      obtain ⟨hRow, hRows⟩ := List.forall_mem_cons.mp h
      rw [placed, List.pairwise_append]
      refine ⟨?_, ih hRows, ?_⟩
      · rw [List.pairwise_map]
        apply hRow.imp
        intro j j' hLt
        exact Coord.before_iff.mpr (.inr ⟨rfl, hLt⟩)
      · rintro a ha b hb
        obtain ⟨j, _, rfl⟩ := List.mem_map.mp ha
        obtain ⟨k, _, _, hFst, _⟩ := mem_placed.mp hb
        rw [Coord.before_iff]
        omega

theorem length_cutRows (columns offsets : List Nat) :
    (cutRows columns offsets).length = offsets.length - 1 := by
  induction offsets with
  | nil => rfl
  | cons first offsets ih =>
      cases offsets with
      | nil => rfl
      | cons last offsets => simpa [cutRows] using ih

/-- Rows that are cut one after the other make up the columns behind the first offset. -/
theorem flatten_cutRows (hMonotone : (first :: offsets).IsChain (· ≤ ·))
    (hLast : (first :: offsets).getLast? = some columns.length) :
    (cutRows columns (first :: offsets)).flatten = columns.drop first := by
  induction offsets generalizing first with
  | nil =>
      cases hLast
      simp [cutRows]
  | cons last offsets ih =>
      obtain ⟨hLe, hRest⟩ := List.isChain_cons_cons.mp hMonotone
      rw [List.getLast?_cons_cons] at hLast
      rw [cutRows, List.flatten_cons, ih hRest hLast]
      have hDrop : columns.drop last = (columns.drop first).drop (last - first) := by
        rw [List.drop_drop, Nat.add_sub_cancel' hLe]
      rw [hDrop, List.take_append_drop]

/-- The offsets are the partial sums of the lengths of the rows. -/
theorem offsetsFrom_cutRows (hMonotone : (first :: offsets).IsChain (· ≤ ·))
    (hInside : ∀ x ∈ first :: offsets, x ≤ columns.length) :
    offsetsFrom first ((cutRows columns (first :: offsets)).map List.length) =
      first :: offsets := by
  induction offsets generalizing first with
  | nil => rfl
  | cons last offsets ih =>
      obtain ⟨hLe, hRest⟩ := List.isChain_cons_cons.mp hMonotone
      obtain ⟨_, hInside'⟩ := List.forall_mem_cons.mp hInside
      have hLast := hInside' last List.mem_cons_self
      have hLength : ((columns.drop first).take (last - first)).length = last - first := by
        rw [List.length_take, List.length_drop]
        omega
      rw [cutRows, List.map_cons, offsetsFrom, hLength, Nat.add_sub_cancel' hLe, ih hRest hInside']

/-- Offsets that never decrease do not pass the last one. -/
theorem Describes.le_length (h : Describes size offsets columns) :
    ∀ x ∈ offsets, x ≤ columns.length := by
  obtain ⟨before, rfl⟩ := List.getLast?_eq_some_iff.mp h.last
  have hMonotone := List.isChain_iff_pairwise.mp h.inOrder.monotone
  intro x hx
  rcases List.mem_append.mp hx with hx | hx
  · exact (List.pairwise_append.mp hMonotone).2.2 x hx _ (List.mem_singleton_self _)
  · exact Nat.le_of_eq (List.mem_singleton.mp hx)

theorem Describes.not_overshoots (h : Describes size offsets columns) :
    ¬ Overshoots size columns 0 offsets := by
  rintro ⟨k, first, last, _, hLast, _, hOutside, _⟩
  exact absurd (h.le_length last (List.mem_of_getElem? hLast)) (Nat.not_le_of_lt hOutside)

/-- The pattern of the coordinates in described rows has the data that describes it. -/
theorem Describes.ofCoords (h : Describes size offsets columns) :
    (ofCoords size (placed 0 (cutRows columns offsets))).offsets = offsets ∧
      (ofCoords size (placed 0 (cutRows columns offsets))).columns = columns := by
  obtain ⟨offsets, rfl⟩ : ∃ l, offsets = 0 :: l := List.head?_eq_some_iff.mp h.first
  have hBounds : ∀ c ∈ placed 0 (cutRows columns (0 :: offsets)), c.1 ≤ c.2 ∧ c.2 < size := by
    intro c hc
    obtain ⟨k, row, hRow, hFst, hSnd⟩ := mem_placed.mp hc
    rw [hFst]
    exact h.inOrder.upper k row hRow c.2 hSnd
  obtain ⟨P, hP, hEntries⟩ := ofEntries_of_sorted
    (fun c hc => inside_iff.mpr ⟨Nat.lt_of_le_of_lt (hBounds c hc).1 (hBounds c hc).2,
      (hBounds c hc).2⟩)
    (fun c hc => (hBounds c hc).1) (pairwise_placed h.inOrder.increasing)
  obtain ⟨_, rfl⟩ := ofEntries_eq_ok_iff.mp hP
  have hRows : (Pattern.ofCoords size (placed 0 (cutRows columns (0 :: offsets)))).rows.toList =
      cutRows columns (0 :: offsets) := by
    apply List.ext_getElem
    · rw [Array.length_toList, rows, Array.size_map, size_bucket, length_cutRows,
        h.length_offsets]
      rfl
    · intro k hk hk'
      have hRow := row_placed (i := 0) hk'
      simpa [rows, getElem_bucket, hEntries] using hRow
  constructor
  · rw [Pattern.offsets, hRows]
    exact offsetsFrom_cutRows h.inOrder.monotone h.le_length
  · rw [Pattern.columns, hEntries, map_snd_placed]
    exact flatten_cutRows h.inOrder.monotone h.last

/-- Compressed data is accepted, overshoots or is rejected. -/
theorem ofCompressed_cases (size : Nat) (offsets columns : List Nat) :
    (Describes size offsets columns ∧ ofCompressed size offsets columns =
      .ok (Pattern.ofCoords size (placed 0 (cutRows columns offsets)))) ∨
    ((Framed size offsets columns ∧ Overshoots size columns 0 offsets) ∧
      ofCompressed size offsets columns = .error .stuck) ∨
    (¬ Describes size offsets columns ∧
      ¬ (Framed size offsets columns ∧ Overshoots size columns 0 offsets) ∧ ∃ reason,
      ofCompressed size offsets columns = .error (.rejected (.invalidPattern reason))) := by
  by_cases hFramed : Framed size offsets columns
  · have hStart : ∀ x ∈ offsets.head?, x ≤ columns.length := by
      intro x hx
      rw [hFramed.first] at hx
      cases hx
      exact Nat.zero_le _
    have hEnds : ¬ (offsets.head? ≠ some 0 ∨ offsets.getLast? ≠ some columns.length) :=
      fun h => h.elim (absurd hFramed.first) (absurd hFramed.last)
    rw [ofCompressed, if_neg (not_not.mpr hFramed.length_offsets), if_neg hEnds]
    rcases decodeRows_outcome size columns 0 hStart with
      ⟨hOrder, _, hOk⟩ | ⟨hOver, hStuck⟩ | ⟨hOrder, hOver, reason, hError⟩
    · rw [hOk]
      exact .inl ⟨⟨hFramed, hOrder⟩, rfl⟩
    · rw [hStuck]
      exact .inr (.inl ⟨⟨hFramed, hOver⟩, rfl⟩)
    · rw [hError]
      exact .inr (.inr ⟨fun h => hOrder h.inOrder, fun h => hOver h.2, reason, rfl⟩)
  · refine .inr (.inr ⟨fun h => hFramed h.toFramed, fun h => hFramed h.1, ?_⟩)
    rw [ofCompressed]
    by_cases hLength : offsets.length = size + 1
    · rw [if_neg (not_not.mpr hLength)]
      have hEnds : offsets.head? ≠ some 0 ∨ offsets.getLast? ≠ some columns.length := by
        by_contra h
        rw [not_or, not_not, not_not] at h
        exact hFramed ⟨hLength, h.1, h.2⟩
      rw [if_pos hEnds]
      exact ⟨_, rfl⟩
    · rw [if_pos hLength]
      exact ⟨_, rfl⟩

/-- Offsets that are in memory already fit into it as those of their pattern. -/
theorem allocate_of_ofCompressed {P : Pattern} (h : ofCompressed size offsets columns = .ok P)
    (hMemory : offsets.length ≤ maxOffsets) : P.allocate = .ok P := by
  rcases ofCompressed_cases size offsets columns with
    ⟨hDescribes, hOk⟩ | ⟨_, hStuck⟩ | ⟨_, _, _, hError⟩
  · rw [hOk] at h
    cases h
    exact if_pos (hDescribes.length_offsets ▸ hMemory)
  · rw [hStuck] at h
    cases h
  · rw [hError] at h
    cases h

/-- Validation of compressed data. Exactly the data that describes a pattern is accepted, and then
it is the data of that pattern. There is no answer exactly if the offsets overshoot, and in all
other cases the data is rejected. -/
theorem ofCompressed_outcome (size : Nat) (offsets columns : List Nat) :
    ((∃ P, ofCompressed size offsets columns = .ok P) ↔ Describes size offsets columns) ∧
      (∀ P, ofCompressed size offsets columns = .ok P →
        P.size = size ∧ P.offsets = offsets ∧ P.columns = columns) ∧
      (ofCompressed size offsets columns = .error .stuck ↔
        Framed size offsets columns ∧ Overshoots size columns 0 offsets) ∧
      ((∃ reason, ofCompressed size offsets columns =
          .error (.rejected (.invalidPattern reason))) ↔
        ¬ Describes size offsets columns ∧
          ¬ (Framed size offsets columns ∧ Overshoots size columns 0 offsets)) := by
  rcases ofCompressed_cases size offsets columns with
    ⟨hDescribes, hOk⟩ | ⟨hOver, hStuck⟩ | ⟨hNot, hOver, reason, hError⟩
  · rw [hOk]
    refine ⟨⟨fun _ => hDescribes, fun _ => ⟨_, rfl⟩⟩, ?_, ⟨nofun, fun h => ?_⟩, ⟨nofun, ?_⟩⟩
    · rintro P hP
      cases hP
      exact ⟨rfl, hDescribes.ofCoords⟩
    · exact absurd h.2 hDescribes.not_overshoots
    · exact fun h => absurd hDescribes h.1
  · rw [hStuck]
    have hNot (h : Describes size offsets columns) : False := h.not_overshoots hOver.2
    exact ⟨⟨nofun, fun h => (hNot h).elim⟩, nofun, ⟨fun _ => hOver, fun _ => rfl⟩,
      ⟨nofun, fun h => absurd hOver h.2⟩⟩
  · rw [hError]
    exact ⟨⟨nofun, fun h => absurd h hNot⟩, nofun, ⟨nofun, fun h => absurd h hOver⟩,
      ⟨fun _ => ⟨hNot, hOver⟩, fun _ => ⟨reason, rfl⟩⟩⟩

/-- Two rows of which the first one ends behind the only column: that the second one would have to
end before it begins is not noticed in time. -/
theorem ofCompressed_overshoot : ¬ Describes 2 [0, 5, 1] [0] ∧
    ¬ ∃ reason, ofCompressed 2 [0, 5, 1] [0] = .error (.rejected (.invalidPattern reason)) := by
  constructor
  · intro h
    exact absurd h.inOrder.monotone (by decide)
  · rintro ⟨reason, hError⟩
    have hStuck : ofCompressed 2 [0, 5, 1] [0] = .error .stuck := rfl
    rw [hStuck] at hError
    cases hError

end Elastodynamics.Sparse.Pattern
