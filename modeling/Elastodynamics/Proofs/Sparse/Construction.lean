import Mathlib.Data.List.Sort
import Elastodynamics.Proofs.Sparse.Lookup
/-!
Construction of sparsity patterns. A pattern made from coordinates has exactly their upper
coordinates, and a list that is already in canonical form is kept as it is. The pattern of a list of
elements couples two nodes exactly if some element has both.
-/
namespace Elastodynamics.Sparse

namespace Coord

/-- Strictly increasing lists with the same members are equal. -/
theorem eq_of_mem_iff {l l' : List Coord} (hl : l.Pairwise fun a b => a.before b = true)
    (hl' : l'.Pairwise fun a b => a.before b = true) (h : ∀ c, c ∈ l ↔ c ∈ l') : l = l' := by
  have hIrrefl : Std.Irrefl fun a b : Coord => a.before b = true := ⟨before_irrefl⟩
  have hAntisymm : Std.Antisymm fun a b : Coord => a.before b = true :=
    ⟨fun a _ hab hba => absurd (before_trans hab hba) (before_irrefl a)⟩
  exact hl.eq_of_mem_iff hl' h

/-- A strictly increasing list of upper coordinates is its own canonical form. -/
theorem canonical_eq_self {l : List Coord} (hUpper : ∀ c ∈ l, c.1 ≤ c.2)
    (hSorted : l.Pairwise fun a b => a.before b = true) : canonical l = l := by
  refine eq_of_mem_iff (pairwise_canonical l) hSorted fun c => ?_
  rw [mem_canonical]
  constructor
  · rintro ⟨b, hb, rfl⟩
    rwa [upper_eq_self (hUpper b hb)]
  · intro hc
    exact ⟨c, hc, upper_eq_self (hUpper c hc)⟩

end Coord

namespace Pattern

variable {n : Nat} {l : List Coord} {P : Pattern}

theorem inside_iff {c : Coord} : inside n c = true ↔ c.1 < n ∧ c.2 < n := by
  simp [inside]

theorem mem_ofCoords {c : Coord} :
    c ∈ (ofCoords n l).entries ↔ ∃ b ∈ l, inside n b = true ∧ b.upper = c := by
  simp only [ofCoords, List.mem_toArray, Coord.mem_canonical, List.mem_filter, and_assoc]

/-- Coordinates make a pattern exactly if all of them lie in the matrix. -/
theorem ofEntries_eq_ok_iff :
    ofEntries n l = .ok P ↔ (∀ c ∈ l, inside n c = true) ∧ P = ofCoords n l := by
  have hFind : (l.find? fun c => !inside n c) = none ↔ ∀ c ∈ l, inside n c = true := by
    simp [List.find?_eq_none]
  rw [ofEntries, ← hFind]
  cases (l.find? fun c => !inside n c) with
  | none => simp [eq_comm]
  | some c => simp

theorem size_of_ofEntries (h : ofEntries n l = .ok P) : P.size = n := by
  rw [(ofEntries_eq_ok_iff.mp h).2]
  rfl

/-- The entries of a pattern made from coordinates are their upper coordinates. -/
theorem mem_of_ofEntries (h : ofEntries n l = .ok P) {c : Coord} :
    c ∈ P.entries ↔ ∃ b ∈ l, b.upper = c := by
  obtain ⟨hInside, rfl⟩ := ofEntries_eq_ok_iff.mp h
  rw [mem_ofCoords]
  exact ⟨fun ⟨b, hb, _, hc⟩ => ⟨b, hb, hc⟩, fun ⟨b, hb, hc⟩ => ⟨b, hb, hInside b hb, hc⟩⟩

/-- A list in canonical form becomes the entries of its pattern without any change. -/
theorem ofEntries_of_sorted (hInside : ∀ c ∈ l, inside n c = true) (hUpper : ∀ c ∈ l, c.1 ≤ c.2)
    (hSorted : l.Pairwise fun a b => a.before b = true) :
    ∃ P, ofEntries n l = .ok P ∧ P.entries.toList = l := by
  refine ⟨ofCoords n l, ofEntries_eq_ok_iff.mpr ⟨hInside, rfl⟩, ?_⟩
  have hFilter : l.filter (inside n) = l := List.filter_eq_self.mpr hInside
  simp only [ofCoords, hFilter, Coord.canonical_eq_self hUpper hSorted]

/-! ### Nodes of common elements -/

theorem mem_of_mem_couplings {nodes : List Nat} {i j : Nat} (h : (i, j) ∈ couplings nodes) :
    i ∈ nodes ∧ j ∈ nodes := by
  induction nodes with
  | nil => simp [couplings] at h
  | cons a nodes ih =>
      rw [couplings, List.mem_append] at h
      rcases h with h | h
      · obtain ⟨b, hb, he⟩ := List.mem_map.mp h
        cases he
        exact ⟨List.mem_cons_self, hb⟩
      · exact ⟨List.mem_cons_of_mem _ (ih h).1, List.mem_cons_of_mem _ (ih h).2⟩

/-- Every two nodes of a list are coupled, in one order or the other. -/
theorem couplings_of_mem {nodes : List Nat} {i j : Nat} (hi : i ∈ nodes) (hj : j ∈ nodes) :
    (i, j) ∈ couplings nodes ∨ (j, i) ∈ couplings nodes := by
  induction nodes with
  | nil => cases hi
  | cons a nodes ih =>
      rw [couplings, List.mem_append, List.mem_append]
      rcases List.mem_cons.mp hi with rfl | hi'
      · exact .inl (.inl (List.mem_map.mpr ⟨j, hj, rfl⟩))
      · rcases List.mem_cons.mp hj with rfl | hj'
        · exact .inr (.inl (List.mem_map.mpr ⟨i, hi, rfl⟩))
        · exact (ih hi' hj').imp .inr .inr

/-- Elements make a pattern if all of their nodes exist. -/
theorem ofElements_of_lt {elements : List (List Nat)}
    (h : ∀ nodes ∈ elements, ∀ i ∈ nodes, i < n) : ∃ P, ofElements n elements = .ok P := by
  refine ⟨ofCoords n (elements.flatMap couplings), ofEntries_eq_ok_iff.mpr ⟨?_, rfl⟩⟩
  rintro ⟨i, j⟩ hc
  obtain ⟨nodes, hNodes, hc⟩ := List.mem_flatMap.mp hc
  have hMem := mem_of_mem_couplings hc
  exact inside_iff.mpr ⟨h nodes hNodes i hMem.1, h nodes hNodes j hMem.2⟩

/-- Two nodes are coupled exactly if some element has both. -/
theorem contains_of_ofElements {elements : List (List Nat)} (h : ofElements n elements = .ok P)
    {i j : Nat} : P.contains i j = true ↔ ∃ nodes ∈ elements, i ∈ nodes ∧ j ∈ nodes := by
  rw [contains_iff, mem_of_ofEntries h]
  constructor
  · rintro ⟨⟨a, b⟩, hc, hUpper⟩
    obtain ⟨nodes, hNodes, hc⟩ := List.mem_flatMap.mp hc
    obtain ⟨ha, hb⟩ := mem_of_mem_couplings hc
    refine ⟨nodes, hNodes, ?_⟩
    have hSame : (i = a ∧ j = b) ∨ (i = b ∧ j = a) := by
      simp only [Coord.upper, Prod.mk.injEq] at hUpper
      omega
    rcases hSame with ⟨rfl, rfl⟩ | ⟨rfl, rfl⟩
    · exact ⟨ha, hb⟩
    · exact ⟨hb, ha⟩
  · rintro ⟨nodes, hNodes, hi, hj⟩
    rcases couplings_of_mem hi hj with hc | hc
    · exact ⟨(i, j), List.mem_flatMap.mpr ⟨nodes, hNodes, hc⟩, rfl⟩
    · exact ⟨(j, i), List.mem_flatMap.mpr ⟨nodes, hNodes, hc⟩, Coord.upper_swap j i⟩

/-! ### All blocks -/

theorem le_of_mem_couplings {nodes : List Nat} (h : nodes.Pairwise (· < ·)) {c : Coord}
    (hc : c ∈ couplings nodes) : c.1 ≤ c.2 := by
  induction nodes with
  | nil => simp [couplings] at hc
  | cons a nodes ih =>
      obtain ⟨hHead, hTail⟩ := List.pairwise_cons.mp h
      rw [couplings, List.mem_append] at hc
      rcases hc with hc | hc
      · obtain ⟨b, hb, rfl⟩ := List.mem_map.mp hc
        rcases List.mem_cons.mp hb with rfl | hb
        · exact Nat.le_refl _
        · exact Nat.le_of_lt (hHead b hb)
      · exact ih hTail hc

/-- Nodes in increasing order are coupled in row-major order. -/
theorem pairwise_couplings {nodes : List Nat} (h : nodes.Pairwise (· < ·)) :
    (couplings nodes).Pairwise fun a b => a.before b = true := by
  induction nodes with
  | nil => exact .nil
  | cons a nodes ih =>
      obtain ⟨hHead, hTail⟩ := List.pairwise_cons.mp h
      rw [couplings, List.pairwise_append, List.pairwise_map]
      have hRow : ∀ {b c : Nat}, b < c → Coord.before (a, b) (a, c) = true :=
        fun hLt => Coord.before_iff.mpr (.inr ⟨rfl, hLt⟩)
      refine ⟨h.imp hRow, ih hTail, ?_⟩
      intro c hc d hd
      obtain ⟨b, _, rfl⟩ := List.mem_map.mp hc
      exact Coord.before_iff.mpr (.inl (hHead _ (mem_of_mem_couplings hd).1))

/-- The pattern of all blocks. -/
def full (n : Nat) : Pattern where
  size := n
  entries := (couplings (List.range n)).toArray
  sorted := pairwise_couplings List.pairwise_lt_range
  bounded c hc :=
    ⟨le_of_mem_couplings List.pairwise_lt_range hc,
      List.mem_range.mp (mem_of_mem_couplings (by simpa using hc)).2⟩

/-- A pattern has no blocks beyond all blocks. -/
theorem mem_full_of_mem {c : Coord} (hc : c ∈ P.entries) : c ∈ (full P.size).entries := by
  obtain ⟨i, j⟩ := c
  have hUpper : i ≤ j := upper_of_mem hc
  have hLt : j < P.size := lt_size_of_mem hc
  have hMem {k : Nat} (hk : k < P.size) : k ∈ List.range P.size := List.mem_range.mpr hk
  rw [full, List.mem_toArray]
  rcases couplings_of_mem (hMem (Nat.lt_of_le_of_lt hUpper hLt)) (hMem hLt) with h | h
  · exact h
  · have hBack : j ≤ i := le_of_mem_couplings List.pairwise_lt_range h
    rwa [Nat.le_antisymm hUpper hBack] at h ⊢

end Pattern

end Elastodynamics.Sparse
