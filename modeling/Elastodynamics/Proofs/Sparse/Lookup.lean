import Elastodynamics.Sparse.Pattern
/-!
Lookup in sparsity patterns. The binary search in a strictly increasing list finds a coordinate
exactly if the list has it, so that the storage index of a block is the place of its upper
coordinate, and one pattern covers another exactly if it has all of its coordinates.
-/
namespace Elastodynamics.Sparse

namespace Coord

theorem upper_eq_self {c : Coord} (h : c.1 ≤ c.2) : c.upper = c := by
  simp [upper, h]

theorem upper_swap (i j : Nat) : upper (i, j) = upper (j, i) := by
  simp [upper, Nat.min_comm, Nat.max_comm]

theorem upper_eq_iff {i j i₀ j₀ : Nat} (h : i₀ ≤ j₀) :
    upper (i, j) = (i₀, j₀) ↔ (i = i₀ ∧ j = j₀) ∨ (i = j₀ ∧ j = i₀) := by
  simp only [upper, Prod.mk.injEq]
  omega

/-- The first member of a strictly increasing list with some property is the least one. -/
theorem find?_eq_some_iff {l : List Coord} (hSorted : l.Pairwise fun a b => a.before b = true)
    {p : Coord → Bool} {c : Coord} : l.find? p = some c ↔
      c ∈ l ∧ p c = true ∧ ∀ d ∈ l, p d = true → d = c ∨ c.before d = true := by
  induction l with
  | nil => simp
  | cons a l ih =>
      obtain ⟨ha, hl⟩ := List.pairwise_cons.mp hSorted
      cases hp : p a with
      | true =>
          rw [List.find?_cons_of_pos hp]
          constructor
          · intro h
            cases h
            exact ⟨List.mem_cons_self, hp, List.forall_mem_cons.mpr
              ⟨fun _ => .inl rfl, fun d hd _ => .inr (ha d hd)⟩⟩
          · rintro ⟨hc, _, hLeast⟩
            rcases List.mem_cons.mp hc with rfl | hc
            · rfl
            · rcases hLeast a List.mem_cons_self hp with rfl | hBefore
              · rfl
              · exact absurd (before_trans hBefore (ha c hc)) (before_irrefl c)
      | false =>
          have hNot (d : Coord) (hd : p d = true) : d ≠ a := by
            rintro rfl
            exact Bool.false_ne_true (hp.symm.trans hd)
          rw [List.find?_cons_of_neg (by simp [hp]), ih hl]
          constructor
          · rintro ⟨hc, hpc, hLeast⟩
            exact ⟨List.mem_cons_of_mem _ hc, hpc, List.forall_mem_cons.mpr
              ⟨fun h => absurd rfl (hNot a h), hLeast⟩⟩
          · rintro ⟨hc, hpc, hLeast⟩
            exact ⟨(List.mem_cons.mp hc).resolve_left (hNot c hpc), hpc,
              (List.forall_mem_cons.mp hLeast).2⟩

end Coord

namespace Pattern

/-- Earlier entries of a strictly increasing list come before later ones. -/
theorem before_of_lt {entries : Array Coord}
    (sorted : entries.toList.Pairwise fun a b => a.before b = true) {k l : Nat}
    (hk : k < entries.size) (hl : l < entries.size) (hkl : k < l) :
    entries[k].before entries[l] = true := by
  have h := List.pairwise_iff_getElem.mp sorted k l (by simpa using hk) (by simpa using hl) hkl
  simpa using h

/-- An entry does not come before itself or an earlier one. -/
theorem not_before_of_le {entries : Array Coord}
    (sorted : entries.toList.Pairwise fun a b => a.before b = true) {k l : Nat}
    (hk : k < entries.size) (hl : l < entries.size) (hkl : k ≤ l) :
    ¬ entries[l].before entries[k] = true := by
  rcases Nat.lt_or_eq_of_le hkl with hlt | rfl
  · exact fun h => Coord.before_irrefl _ (Coord.before_trans (before_of_lt sorted hk hl hlt) h)
  · exact Coord.before_irrefl _

/-- What the search returns is a place of the coordinate. -/
theorem search_sound {entries : Array Coord} {c : Coord} {lo hi : Nat} {h : hi ≤ entries.size}
    {k : Fin entries.size} (found : search entries c lo hi h = some k) : entries[k] = c := by
  fun_induction search entries c lo hi h with
  | case1 lo hi h lt mid_lt e he =>
      cases found
      exact he
  | case2 lo hi h lt mid_lt e he hb ih => exact ih found
  | case3 lo hi h lt mid_lt e he hb ih => exact ih found
  | case4 => cases found

/-- A coordinate between the two places is found. The half that is left out holds only smaller or
only larger coordinates, because the list is increasing. -/
theorem search_complete {entries : Array Coord}
    (sorted : entries.toList.Pairwise fun a b => a.before b = true)
    {c : Coord} {lo hi : Nat} {h : hi ≤ entries.size} {k : Nat} (hk : k < entries.size)
    (heq : entries[k] = c) (hlo : lo ≤ k) (hhi : k < hi) :
    search entries c lo hi h = some ⟨k, hk⟩ := by
  subst heq
  fun_induction search entries entries[k] lo hi h with
  | case1 lo hi h lt mid_lt e he =>
      have same : entries[(lo + hi) / 2] = entries[k] := he
      have hle : k ≤ (lo + hi) / 2 := Nat.le_of_not_lt fun hlt =>
        not_before_of_le sorted mid_lt hk (Nat.le_of_lt hlt)
          (same ▸ before_of_lt sorted mid_lt hk hlt)
      have hge : (lo + hi) / 2 ≤ k := Nat.le_of_not_lt fun hlt =>
        not_before_of_le sorted hk mid_lt (Nat.le_of_lt hlt)
          (same ▸ before_of_lt sorted hk mid_lt hlt)
      exact congrArg some (Fin.ext (Nat.le_antisymm hge hle))
  | case2 lo hi h lt mid_lt e he hb ih =>
      have hright : (lo + hi) / 2 < k := Nat.lt_of_not_le fun hle =>
        not_before_of_le sorted hk mid_lt hle hb
      exact ih hright hhi
  | case3 lo hi h lt mid_lt e he hb ih =>
      have hleft : k < (lo + hi) / 2 := Nat.lt_of_not_le fun hle => by
        rcases Nat.lt_or_eq_of_le hle with hlt | hsame
        · exact hb (before_of_lt sorted mid_lt hk hlt)
        · exact he (by simp only [e, hsame])
      exact ih hlo hleft
  | case4 lo hi h lt => omega

/-- The coordinate with a storage index. -/
def entry (P : Pattern) : Fin P.entries.size → Coord
  | ⟨k, h⟩ => P.entries[k]

theorem entry_mem (P : Pattern) (k : Fin P.entries.size) : P.entry k ∈ P.entries :=
  Array.getElem_mem k.isLt

variable {P Q : Pattern} {i j : Nat}

/-- The storage index of a block is the place of its upper coordinate. -/
theorem find?_eq_some_iff {k : Fin P.entries.size} :
    P.find? i j = some k ↔ P.entry k = Coord.upper (i, j) :=
  ⟨search_sound, fun hk => search_complete P.sorted k.isLt hk (Nat.zero_le _) k.isLt⟩

/-- A block is found exactly if its upper coordinate is an entry. -/
theorem contains_iff : P.contains i j = true ↔ Coord.upper (i, j) ∈ P.entries := by
  rw [contains, Option.isSome_iff_exists, Array.mem_iff_getElem]
  constructor
  · rintro ⟨k, hk⟩
    exact ⟨k.val, k.isLt, find?_eq_some_iff.mp hk⟩
  · rintro ⟨k, hlt, hk⟩
    exact ⟨⟨k, hlt⟩, find?_eq_some_iff.mpr hk⟩

/-- Only one of two mirrored blocks is stored, and either of them finds it. -/
theorem find?_comm : P.find? i j = P.find? j i := by
  rw [find?, find?, Coord.upper_swap]

theorem contains_comm : P.contains i j = P.contains j i := by
  rw [contains, contains, find?_comm]

theorem upper_of_mem {c : Coord} (h : c ∈ P.entries) : c.1 ≤ c.2 :=
  (P.bounded c (by simpa using h)).1

theorem lt_size_of_mem {c : Coord} (h : c ∈ P.entries) : c.2 < P.size :=
  (P.bounded c (by simpa using h)).2

/-- A block is found exactly if it or its mirrored block is an entry. -/
theorem contains_iff_mem : P.contains i j = true ↔ (i, j) ∈ P.entries ∨ (j, i) ∈ P.entries := by
  rw [contains_iff]
  rcases Nat.le_total i j with hAbove | hBelow
  · rw [Coord.upper_eq_self hAbove]
    refine ⟨.inl, fun h => h.elim id fun hMirrored => ?_⟩
    have hSame : i = j := Nat.le_antisymm hAbove (upper_of_mem hMirrored)
    exact hSame ▸ hMirrored
  · rw [Coord.upper_swap, Coord.upper_eq_self hBelow]
    refine ⟨.inr, fun h => h.elim (fun hMirrored => ?_) id⟩
    have hSame : i = j := Nat.le_antisymm (upper_of_mem hMirrored) hBelow
    exact hSame ▸ hMirrored

/-- A block that is found lies in the matrix. -/
theorem lt_size_of_contains (h : P.contains i j = true) : i < P.size ∧ j < P.size := by
  have hlt := lt_size_of_mem (contains_iff.mp h)
  simp only [Coord.upper] at hlt
  omega

/-- An upper coordinate is found exactly if it is an entry. -/
theorem contains_iff_of_le {c : Coord} (h : c.1 ≤ c.2) :
    P.contains c.1 c.2 = true ↔ c ∈ P.entries := by
  rw [contains_iff, Coord.upper_eq_self h]

/-- No block is missing exactly if every entry of the one pattern is an entry of the other. -/
theorem firstMissing?_eq_none_iff :
    P.firstMissing? Q = none ↔ ∀ c ∈ Q.entries, c ∈ P.entries := by
  simp only [firstMissing?, List.find?_eq_none, Array.mem_toList_iff, Bool.not_eq_true',
    Bool.not_eq_false]
  exact forall₂_congr fun c hc => contains_iff_of_le (upper_of_mem hc)

/-- The entries of a pattern are different from each other. -/
theorem nodup_entries (P : Pattern) : P.entries.toList.Nodup := by
  apply P.sorted.imp
  intro a b hab heq
  exact Coord.before_irrefl b (heq ▸ hab)

end Pattern

end Elastodynamics.Sparse
