import Elastodynamics.Proofs.Transfer
/-!
Addresses that wrap around. The address of a component is computed with machine words, so it is the
number of the component up to multiples of `2 ^ 64`. Reading and adding compare the addresses with
the length of the vector, and nothing else: whether a node exists is never asked. A node whose
components lie behind the end is noticed, unless its addresses wrap around into the vector. Then
the components of two other nodes are taken for its own.
-/
namespace Elastodynamics.Dofs

variable {α : Type} {nodes : List UInt64} {i : UInt64} {n : Nat}

/-! ### Addresses in a vector -/

/-- The number of the first component of a node, up to multiples of `2 ^ 64`. -/
def start (i : UInt64) : Nat := 3 * i.toNat % 2 ^ 64

/-- The places in a vector that are taken for the components of a node. -/
def places (i : UInt64) : List Nat := [start i, start i + 1, start i + 2]

/-- Whether a node has components behind the end of a vector with `n` components, while its places
are inside of it. -/
structure WrapsInto (i : UInt64) (n : Nat) : Prop where
  behind : n ≤ 3 * i.toNat + 2
  inside : start i + 2 < n

theorem start_eq_of_lt (h : 3 * i.toNat < 2 ^ 64) : start i = 3 * i.toNat := Nat.mod_eq_of_lt h

theorem map_toNat_addresses_eq_mod (i : UInt64) :
    (addresses i).map UInt64.toNat = [start i, (start i + 1) % 2 ^ 64, (start i + 2) % 2 ^ 64] := by
  have hAddress {c : Nat} (hc : c < 3) : (address i c).toNat = (start i + c) % 2 ^ 64 := by
    rw [toNat_address_eq_mod i hc, start, Nat.mod_add_mod]
  have hStart : start i % 2 ^ 64 = start i := Nat.mod_mod _ _
  rw [addresses_eq, List.map_cons, List.map_cons, List.map_cons, List.map_nil,
    hAddress (by decide), hAddress (by decide), hAddress (by decide), Nat.add_zero, hStart]

/-- The last address is behind the end of any vector with fewer components than there are words. So
a node whose addresses wrap around after the first or the second one is never inside. -/
theorem forall_mem_addresses_lt_iff (hWords : n < 2 ^ 64) :
    (∀ a ∈ addresses i, a.toNat < n) ↔ start i + 2 < n := by
  have hStart : start i < 2 ^ 64 := Nat.mod_lt _ (by decide)
  rw [← List.forall_mem_map (P := (· < n)), map_toNat_addresses_eq_mod]
  simp only [List.forall_mem_cons, List.not_mem_nil, false_implies, implies_true, and_true]
  omega

/-- If its addresses are inside of a vector, they are the places of the node. -/
theorem map_toNat_addresses (hWords : n < 2 ^ 64) (h : start i + 2 < n) :
    (addresses i).map UInt64.toNat = places i := by
  rw [map_toNat_addresses_eq_mod, Nat.mod_eq_of_lt (by omega), Nat.mod_eq_of_lt (by omega), places]

/-- A place of a node is behind the end of a vector exactly if a component is and the node does not
wrap around into the vector. -/
theorem le_start_iff : n ≤ start i + 2 ↔ n ≤ 3 * i.toNat + 2 ∧ ¬ WrapsInto i n := by
  have hLe : start i ≤ 3 * i.toNat := Nat.mod_le _ _
  constructor
  · exact fun h => ⟨by omega, fun hWraps => by have := hWraps.inside; omega⟩
  · rintro ⟨hBehind, hNot⟩
    by_contra h
    exact hNot ⟨hBehind, by omega⟩

/-- Which nodes wrap around into a vector. Three times the number of such a node is `2 ^ 64` or
`2 * 2 ^ 64` too large, and neither is a multiple of three: its places belong to two nodes. -/
theorem wrapsInto_iff (hWords : n < 2 ^ 64) : WrapsInto i n ↔ ∃ k,
    3 * i.toNat = 2 ^ 64 + (3 * k + 2) ∧ places i = [3 * k + 2, 3 * k + 3, 3 * k + 4] ∧
        3 * k + 4 < n ∨
      3 * i.toNat = 2 * 2 ^ 64 + (3 * k + 1) ∧ places i = [3 * k + 1, 3 * k + 2, 3 * k + 3] ∧
        3 * k + 3 < n := by
  have hNode : i.toNat < 2 ^ 64 := i.toNat_lt
  have hPlaces {s : Nat} (hs : start i = s) : places i = [s, s + 1, s + 2] := by rw [places, hs]
  constructor
  · rintro ⟨hBehind, hInside⟩
    have hStart : start i = 3 * i.toNat % 2 ^ 64 := rfl
    obtain hOnce | hTwice :
        3 * i.toNat = 2 ^ 64 + start i ∨ 3 * i.toNat = 2 * 2 ^ 64 + start i := by
      omega
    · exact ⟨start i / 3, .inl ⟨by omega, hPlaces (by omega), by omega⟩⟩
    · exact ⟨start i / 3, .inr ⟨by omega, hPlaces (by omega), by omega⟩⟩
  · rintro ⟨k, ⟨hNumber, hAt, hRoom⟩ | ⟨hNumber, hAt, hRoom⟩⟩
    · have hStart : start i = 3 * k + 2 := (List.cons.inj hAt).1
      exact ⟨by omega, by omega⟩
    · have hStart : start i = 3 * k + 1 := (List.cons.inj hAt).1
      exact ⟨by omega, by omega⟩

/-- Whether an address is behind the end of a vector, told node by node. -/
theorem exists_address_ge_iff (hWords : n < 2 ^ 64) :
    (∃ a ∈ nodes.flatMap addresses, n ≤ a.toNat) ↔
      ∃ i ∈ nodes, n ≤ 3 * i.toNat + 2 ∧ ¬ WrapsInto i n := by
  have hNode (i : UInt64) : (∃ a ∈ addresses i, n ≤ a.toNat) ↔
      n ≤ 3 * i.toNat + 2 ∧ ¬ WrapsInto i n := by
    rw [← le_start_iff, ← not_iff_not, not_exists, not_le, ← forall_mem_addresses_lt_iff hWords]
    simp only [not_and, not_le]
  simp only [List.mem_flatMap, ← hNode]
  constructor
  · rintro ⟨a, ⟨i, hi, ha⟩, hLe⟩
    exact ⟨i, hi, a, ha, hLe⟩
  · rintro ⟨i, hi, a, ha, hLe⟩
    exact ⟨a, ⟨i, hi, ha⟩, hLe⟩

/-- The addresses of nodes are their places as soon as all of them are inside of a vector. -/
theorem map_toNat_flatMap_addresses (hWords : n < 2 ^ 64)
    (h : ∀ a ∈ nodes.flatMap addresses, a.toNat < n) :
    (nodes.flatMap addresses).map UInt64.toNat = nodes.flatMap places := by
  rw [List.map_flatMap]
  refine List.flatMap_congr fun i hi => map_toNat_addresses hWords ?_
  rw [← forall_mem_addresses_lt_iff hWords]
  exact fun a ha => h a (List.mem_flatMap.mpr ⟨i, hi, ha⟩)

/-! ### Reading -/

/-- Reading at some addresses fails exactly if one of them is behind the end, and otherwise gives
the components there. -/
theorem mapM_getElem?_cases (x : Array α) (l : List UInt64) :
    ((∃ a ∈ l, x.size ≤ a.toNat) ∧ l.mapM (fun a => x[a.toNat]?) = none) ∨
      (∀ a ∈ l, a.toNat < x.size) ∧ ∃ values, l.mapM (fun a => x[a.toNat]?) = some values ∧
        values.map some = l.map fun a => x[a.toNat]? := by
  induction l with
  | nil => exact .inr ⟨nofun, [], rfl, rfl⟩
  | cons a l ih =>
      rw [List.mapM_cons]
      by_cases ha : a.toNat < x.size
      · rcases ih with ⟨⟨b, hb, hLe⟩, hNone⟩ | ⟨hAll, values, hSome, hValues⟩
        · refine .inl ⟨⟨b, List.mem_cons_of_mem a hb, hLe⟩, ?_⟩
          rw [hNone, Array.getElem?_eq_getElem ha]
          rfl
        · refine .inr ⟨List.forall_mem_cons.mpr ⟨ha, hAll⟩, x[a.toNat] :: values, ?_, ?_⟩
          · rw [hSome, Array.getElem?_eq_getElem ha]
            rfl
          · rw [List.map_cons, List.map_cons, hValues, Array.getElem?_eq_getElem ha]
      · rw [not_lt] at ha
        refine .inl ⟨⟨a, List.mem_cons_self, ha⟩, ?_⟩
        rw [Array.getElem?_eq_none ha]
        rfl

variable {x : Array α} {dim : Nat}

theorem gather_eq_none_iff (hWords : x.size < 2 ^ 64) : gather x nodes dim = none ↔
    dim ≠ 3 * nodes.length ∨ ∃ i ∈ nodes, x.size ≤ 3 * i.toNat + 2 ∧ ¬ WrapsInto i x.size := by
  rw [gather, ← exists_address_ge_iff hWords]
  by_cases hDim : dim = 3 * nodes.length
  · rw [if_pos hDim]
    rcases mapM_getElem?_cases x (nodes.flatMap addresses) with
      ⟨hBehind, hNone⟩ | ⟨hAll, values, hSome, _⟩
    · exact ⟨fun _ => .inr hBehind, fun _ => hNone⟩
    · rw [hSome]
      refine ⟨fun h => absurd h (Option.some_ne_none values), ?_⟩
      rintro (hNot | ⟨a, ha, hLe⟩)
      · exact absurd hDim hNot
      · exact absurd (hAll a ha) (not_lt.mpr hLe)
  · rw [if_neg hDim]
    exact ⟨fun _ => .inl hDim, fun _ => rfl⟩

/-- What is read are the components at the places of the nodes. -/
theorem map_some_of_gather (hWords : x.size < 2 ^ 64) {values : List α}
    (h : gather x nodes dim = some values) :
    values.map some = (nodes.flatMap places).map (x[·]?) := by
  rw [gather] at h
  split at h
  · rcases mapM_getElem?_cases x (nodes.flatMap addresses) with
      ⟨_, hNone⟩ | ⟨hAll, read, hSome, hRead⟩
    · rw [hNone] at h
      cases h
    · rw [hSome] at h
      cases h
      rw [hRead, ← map_toNat_flatMap_addresses hWords hAll, List.map_map]
      rfl
  · cases h

/-! ### Additions -/

variable [Scalar α]

/-- The values that are sent to a place, in their order. -/
def sent (places : List Nat) (values : List α) (j : Nat) : List α :=
  ((places.zip values).filter fun p => p.1 = j).map Prod.snd

/-- Additions fail exactly if one of the addresses is behind the end, and otherwise each component
takes up, one after the other, the values that are sent to it. -/
theorem addAll_cases (x : Array α) (pairs : List (UInt64 × α)) :
    ((∃ p ∈ pairs, x.size ≤ p.1.toNat) ∧ addAll x pairs = none) ∨
      (∀ p ∈ pairs, p.1.toNat < x.size) ∧ ∃ x', addAll x pairs = some x' ∧ x'.size = x.size ∧
        ∀ j, x'[j]? = x[j]?.map fun v =>
          (sent (pairs.map fun p => p.1.toNat) (pairs.map Prod.snd) j).foldl (· + ·) v := by
  induction pairs generalizing x with
  | nil => exact .inr ⟨nofun, x, rfl, rfl, fun j => by simp [sent]⟩
  | cons p pairs ih =>
      obtain ⟨a, value⟩ := p
      rw [addAll]
      by_cases ha : a.toNat < x.size
      · rw [if_pos ha]
        have hStep := ih (x.modify a.toNat (· + value))
        rw [Array.size_modify] at hStep
        rcases hStep with ⟨⟨p, hp, hLe⟩, hNone⟩ | ⟨hAll, x', hSome, hSize, hGet⟩
        · exact .inl ⟨⟨p, List.mem_cons_of_mem _ hp, hLe⟩, hNone⟩
        · refine .inr ⟨List.forall_mem_cons.mpr ⟨ha, hAll⟩, x', hSome, hSize, fun j => ?_⟩
          rw [hGet, Array.getElem?_modify, sent, sent, List.map_cons, List.map_cons,
            List.zip_cons_cons, List.filter_cons]
          by_cases hj : a.toNat = j
          · simp [hj, Option.map_map, Function.comp_def]
          · simp [hj]
      · rw [if_neg ha]
        exact .inl ⟨⟨_, List.mem_cons_self, not_lt.mp ha⟩, rfl⟩

variable {l : List α}

theorem scatter_eq_none_iff (hWords : x.size < 2 ^ 64) : scatter l x nodes = none ↔
    l.length ≠ 3 * nodes.length ∨ ∃ i ∈ nodes, x.size ≤ 3 * i.toNat + 2 ∧ ¬ WrapsInto i x.size := by
  rw [scatter, ← exists_address_ge_iff hWords]
  by_cases hDim : l.length = 3 * nodes.length
  · rw [if_pos hDim]
    have hFst : ((nodes.flatMap addresses).zip l).map Prod.fst = nodes.flatMap addresses :=
      List.map_fst_zip (by rw [length_flatMap_addresses, hDim])
    rcases addAll_cases x ((nodes.flatMap addresses).zip l) with
      ⟨⟨p, hp, hLe⟩, hNone⟩ | ⟨hAll, x', hSome, _⟩
    · exact ⟨fun _ => .inr ⟨p.1, (List.of_mem_zip hp).1, hLe⟩, fun _ => hNone⟩
    · rw [hSome]
      refine ⟨fun h => absurd h (Option.some_ne_none x'), ?_⟩
      rintro (hNot | ⟨a, ha, hLe⟩)
      · exact absurd hDim hNot
      · rw [← hFst] at ha
        obtain ⟨p, hp, rfl⟩ := List.mem_map.mp ha
        exact absurd (hAll p hp) (not_lt.mpr hLe)
  · rw [if_neg hDim]
    exact ⟨fun _ => .inl hDim, fun _ => rfl⟩

/-- What is changed are the components at the places of the nodes. -/
theorem getElem?_of_scatter (hWords : x.size < 2 ^ 64) {x' : Array α}
    (h : scatter l x nodes = some x') : x'.size = x.size ∧ ∀ j, x'[j]? =
      x[j]?.map fun v => (sent (nodes.flatMap places) l j).foldl (· + ·) v := by
  rw [scatter] at h
  split at h
  · next hDim =>
      have hLength : (nodes.flatMap addresses).length = l.length :=
        (length_flatMap_addresses nodes).trans hDim.symm
      have hFst : ((nodes.flatMap addresses).zip l).map Prod.fst = nodes.flatMap addresses :=
        List.map_fst_zip hLength.le
      have hSnd : ((nodes.flatMap addresses).zip l).map Prod.snd = l :=
        List.map_snd_zip hLength.ge
      rcases addAll_cases x ((nodes.flatMap addresses).zip l) with
        ⟨_, hNone⟩ | ⟨hAll, y, hSome, hSize, hGet⟩
      · rw [hNone] at h
        cases h
      · rw [hSome] at h
        cases h
        have hInside : ∀ a ∈ nodes.flatMap addresses, a.toNat < x.size := by
          rw [← hFst]
          exact List.forall_mem_map.mpr hAll
        have hPlaces : ((nodes.flatMap addresses).zip l).map (fun p => p.1.toNat) =
            nodes.flatMap places := by
          calc ((nodes.flatMap addresses).zip l).map (fun p => p.1.toNat)
              = (((nodes.flatMap addresses).zip l).map Prod.fst).map UInt64.toNat := by
                rw [List.map_map]
                rfl
            _ = nodes.flatMap places := by rw [hFst, map_toNat_flatMap_addresses hWords hInside]
        rw [hPlaces, hSnd] at hGet
        exact ⟨hSize, hGet⟩
  · cases h

/-- **Addresses that wrap around.** For any vector, of fewer components than there are words, any
nodes and any local dimension: there is no result exactly if the dimension is not three per node, or
some node has components behind the end of the vector and does not wrap around into it. Otherwise
what is read and what is changed are the components at the places of the nodes. These are its own
for a node in the vector. A node that wraps around into it has components of two other nodes: the
last one of some node and the first two of the next, or the last two and the first one. -/
theorem transfer_wraps_around (x : Array α) (hWords : x.size < 2 ^ 64) (nodes : List UInt64)
    (dim : Nat) (l : List α) :
    (gather x nodes dim = none ↔ dim ≠ 3 * nodes.length ∨
      ∃ i ∈ nodes, x.size ≤ 3 * i.toNat + 2 ∧ ¬ WrapsInto i x.size) ∧
    (scatter l x nodes = none ↔ l.length ≠ 3 * nodes.length ∨
      ∃ i ∈ nodes, x.size ≤ 3 * i.toNat + 2 ∧ ¬ WrapsInto i x.size) ∧
    (∀ values, gather x nodes dim = some values →
      values.map some = (nodes.flatMap places).map (x[·]?)) ∧
    (∀ x', scatter l x nodes = some x' → x'.size = x.size ∧ ∀ j, x'[j]? =
      x[j]?.map fun v => (sent (nodes.flatMap places) l j).foldl (· + ·) v) ∧
    (∀ i : UInt64, 3 * i.toNat + 2 < x.size →
      places i = [3 * i.toNat, 3 * i.toNat + 1, 3 * i.toNat + 2]) ∧
    ∀ i, WrapsInto i x.size ↔ ∃ k,
      3 * i.toNat = 2 ^ 64 + (3 * k + 2) ∧ places i = [3 * k + 2, 3 * k + 3, 3 * k + 4] ∧
          3 * k + 4 < x.size ∨
        3 * i.toNat = 2 * 2 ^ 64 + (3 * k + 1) ∧ places i = [3 * k + 1, 3 * k + 2, 3 * k + 3] ∧
          3 * k + 3 < x.size := by
  refine ⟨gather_eq_none_iff hWords, scatter_eq_none_iff hWords,
    fun _ => map_some_of_gather hWords, fun _ => getElem?_of_scatter hWords, fun i hi => ?_,
    fun _ => wrapsInto_iff hWords⟩
  rw [places, start_eq_of_lt (by omega)]

/-- A vector of four nodes, the second of them and one far behind it, whose places are the last
component of the first node and the first two of the second one. -/
theorem transfer_wraps_around_far :
    let x : Array ℚ := #[0, 1, 2, 3, 4, 5, 6, 7, 8, 9, 10, 11]
    let nodes : List UInt64 := [1, 6148914691236517206]
    x.size < 2 ^ 64 ∧ WrapsInto 6148914691236517206 x.size ∧
      gather x nodes 6 = some [3, 4, 5, 2, 3, 4] ∧
      ∃ x', scatter [1, 1, 1, 10, 20, 30] x nodes = some x' ∧
        x'[2]? = some 12 ∧ x'[3]? = some (3 + 1 + 20) := by
  intro x nodes
  have hWords : x.size < 2 ^ 64 := by decide
  obtain ⟨_, hScatter, _, hChanged, _, hWraps⟩ :=
    transfer_wraps_around x hWords nodes 6 [1, 1, 1, 10, 20, 30]
  have hFar : WrapsInto 6148914691236517206 x.size :=
    (hWraps _).mpr ⟨0, .inl ⟨by decide, by decide, by decide⟩⟩
  have hSome : scatter [1, 1, 1, 10, 20, 30] x nodes ≠ none := by
    rw [Ne, hScatter]
    simpa [nodes, x] using hFar
  obtain ⟨x', hx'⟩ := Option.ne_none_iff_exists'.mp hSome
  obtain ⟨_, hGet⟩ := hChanged x' hx'
  refine ⟨hWords, hFar, by decide +kernel, x', hx', ?_, ?_⟩
  · rw [hGet]
    decide +kernel
  · rw [hGet]
    decide +kernel

/-- In the same vector, a node without any component in it is read, and changed. -/
theorem transfer_behind_end :
    let x : Array ℚ := #[0, 1, 2, 3, 4, 5, 6, 7, 8, 9, 10, 11]
    let node : UInt64 := 6148914691236517206
    (∀ c < 3, x.size ≤ 3 * node.toNat + c) ∧ gather x [node] 3 = some [2, 3, 4] ∧
      scatter [10, 20, 30] x [node] = some #[0, 1, 12, 23, 34, 5, 6, 7, 8, 9, 10, 11] ∧
      ¬ (gather x [node] 3 = none ↔
        3 ≠ 3 * [node].length ∨ ∃ i ∈ [node], ∃ c < 3, x.size ≤ 3 * i.toNat + c) := by
  intro x node
  have hBehind : ∀ c < 3, x.size ≤ 3 * node.toNat + c := by decide
  have hGather : gather x [node] 3 = some [2, 3, 4] := by decide +kernel
  refine ⟨hBehind, hGather, by decide +kernel, fun h => ?_⟩
  rw [hGather] at h
  cases h.mpr (.inr ⟨node, List.mem_singleton_self node, 0, by decide, hBehind 0 (by decide)⟩)

end Elastodynamics.Dofs
