/-!
Coordinates of blocks and their row-major order. A list of coordinates has one canonical form: every
coordinate moved into the upper triangle, in strictly increasing order.
-/
namespace Elastodynamics.Sparse

abbrev Coord := Nat × Nat

namespace Coord

/-- Row-major order: rows first, then columns. -/
def before (a b : Coord) : Bool := a.1 < b.1 || (a.1 == b.1 && a.2 < b.2)

theorem before_iff {a b : Coord} : a.before b = true ↔ a.1 < b.1 ∨ (a.1 = b.1 ∧ a.2 < b.2) := by
  simp [before]

theorem before_irrefl (a : Coord) : ¬ a.before a = true := by
  rw [before_iff]
  omega

theorem before_trans {a b c : Coord} (hab : a.before b = true) (hbc : b.before c = true) :
    a.before c = true := by
  rw [before_iff] at *
  omega

theorem before_total {a b : Coord} (h : a ≠ b) : a.before b = true ∨ b.before a = true := by
  rw [before_iff, before_iff]
  have : a.1 ≠ b.1 ∨ a.2 ≠ b.2 := by
    by_cases h1 : a.1 = b.1
    · exact .inr fun h2 => h (Prod.ext h1 h2)
    · exact .inl h1
  omega

/-- The coordinate of the stored block: the same one on and above the diagonal, and below it the one
with row and column exchanged. -/
def upper (a : Coord) : Coord := (min a.1 a.2, max a.1 a.2)

def distinct : List Coord → List Coord
  | [] => []
  | [a] => [a]
  | a :: b :: l => if a = b then distinct (b :: l) else a :: distinct (b :: l)

/-- The canonical form of a list of coordinates. -/
def canonical (l : List Coord) : List Coord :=
  distinct ((l.map upper).mergeSort fun a b => !b.before a)

@[simp] theorem mem_distinct {a : Coord} {l : List Coord} : a ∈ distinct l ↔ a ∈ l := by
  induction l using distinct.induct with
  | case1 => simp [distinct]
  | case2 => simp [distinct]
  | case3 b l ih => simp [distinct, ih]
  | case4 b c l hne ih =>
    rw [distinct, if_neg hne, List.mem_cons, ih, List.mem_cons (a := a) (b := b)]

theorem mem_canonical {a : Coord} {l : List Coord} :
    a ∈ canonical l ↔ ∃ b ∈ l, b.upper = a := by
  simp [canonical, List.mem_mergeSort]

theorem pairwise_distinct {l : List Coord} (h : l.Pairwise fun a b => (!b.before a) = true) :
    (distinct l).Pairwise fun a b => a.before b = true := by
  induction l using distinct.induct with
  | case1 => exact .nil
  | case2 a => exact List.pairwise_singleton _ _
  | case3 a l ih =>
    rw [distinct, if_pos rfl]
    exact ih h.tail
  | case4 a b l hne ih =>
    rw [distinct, if_neg hne]
    refine List.pairwise_cons.2 ⟨fun c hc => ?_, ih h.tail⟩
    have first := List.pairwise_cons.1 h
    have second := List.pairwise_cons.1 first.2
    have hab : a.before b = true := by
      have := first.1 b (by simp)
      rcases before_total hne with h1 | h1
      · exact h1
      · simp [h1] at this
    rcases List.mem_cons.1 (mem_distinct.1 hc) with rfl | hl
    · exact hab
    · by_cases hbc : b = c
      · exact hbc ▸ hab
      · have := second.1 c hl
        rcases before_total hbc with h1 | h1
        · exact before_trans hab h1
        · simp [h1] at this

theorem pairwise_canonical (l : List Coord) :
    (canonical l).Pairwise fun a b => a.before b = true := by
  refine pairwise_distinct (List.pairwise_mergeSort ?_ ?_ _)
  · intro a b c hab hbc
    simp only [Bool.not_eq_true', ← Bool.not_eq_true, before_iff] at *
    omega
  · intro a b
    simp only [Bool.or_eq_true, Bool.not_eq_true', ← Bool.not_eq_true, before_iff]
    omega

end Coord

end Elastodynamics.Sparse
