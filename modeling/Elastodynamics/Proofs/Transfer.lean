import Elastodynamics.Proofs.Model.Sums
import Elastodynamics.Dofs
/-!
Transfer between local and stacked vectors. Both directions are first told as the loops that they
stand for, one over the components of the local vector, the other over nodes and their components.
If all nodes are in range, no address wraps around, and an addition changes a component by the sum
of the values that are sent to it. So reading and adding are adjoint, also with repeated nodes, and
with distinct nodes what has been added is read back.
-/
namespace Elastodynamics.Dofs

variable {α : Type}

/-! ### Loops -/

/-- The address of a component of a node, which may have wrapped around. -/
def address (node : UInt64) (component : Nat) : UInt64 := 3 * node + UInt64.ofNat component

theorem addresses_eq (node : UInt64) :
    addresses node = [address node 0, address node 1, address node 2] := by
  simp [addresses, address]

/-- Component `i` of a local vector: component `i % 3` of node `i / 3` of the list. -/
def component? (x : Array α) (nodes : List UInt64) (i : Nat) : Option α := do
  let node ← nodes[i / 3]?
  x[(address node (i % 3)).toNat]?

/-- Reads a local vector component by component. -/
def gatherByComponent (x : Array α) (nodes : List UInt64) (dim : Nat) : Option (List α) :=
  if dim = 3 * nodes.length then (List.range dim).mapM (component? x nodes) else none

theorem gather_eq_gatherByComponent (x : Array α) (nodes : List UInt64) (dim : Nat) :
    gather x nodes dim = gatherByComponent x nodes dim := by
  have hLoop : (nodes.flatMap addresses).mapM (fun a => x[a.toNat]?) =
      (List.range (3 * nodes.length)).mapM (component? x nodes) := by
    induction nodes with
    | nil => rfl
    | cons node nodes ih =>
        have hRange : List.range (3 * (node :: nodes).length) =
            [0, 1, 2] ++ (List.range (3 * nodes.length)).map (3 + ·) := by
          rw [List.length_cons, Nat.mul_add, Nat.add_comm, List.range_add]
          rfl
        have hNext (i : Nat) : component? x (node :: nodes) (3 + i) = component? x nodes i := by
          rw [component?, component?, Nat.add_div_left i (by decide), List.getElem?_cons_succ,
            Nat.add_mod_left]
        have hFirst : [address node 0, address node 1, address node 2].mapM
            (fun a => x[a.toNat]?) = [0, 1, 2].mapM (component? x (node :: nodes)) := rfl
        rw [List.flatMap_cons, List.mapM_append, ih, hRange, List.mapM_append, List.mapM_map,
          addresses_eq, hFirst]
        simp only [Function.comp_def, hNext]
  rw [gather, gatherByComponent]
  split
  · next hDim => rw [hLoop, hDim]
  · rfl

variable [Scalar α]

/-- Adds a value to the component with the given address. -/
def addAt (x : Array α) (a : UInt64) (value : α) : Option (Array α) :=
  if a.toNat < x.size then some (x.modify a.toNat (· + value)) else none

/-- Adds the values for the node at place `k` of a list, component by component. They begin at
`3 * k` in the local vector. -/
def addNodeAt (l : List α) (x : Array α) (node : UInt64) (k : Nat) : Option (Array α) :=
  [0, 1, 2].foldlM (fun x component =>
    l[3 * k + component]?.bind fun value => addAt x (address node component) value) x

/-- Adds a local vector node by node. -/
def scatterByNode (l : List α) (x : Array α) (nodes : List UInt64) : Option (Array α) :=
  if l.length = 3 * nodes.length then
    nodes.zipIdx.foldlM (fun x (node, k) => addNodeAt l x node k) x
  else none

theorem addAll_cons (x : Array α) (a : UInt64) (value : α) (l : List (UInt64 × α)) :
    addAll x ((a, value) :: l) = (addAt x a value).bind fun x => addAll x l := by
  rw [addAll, addAt]
  split <;> rfl

theorem scatter_eq_scatterByNode (l : List α) (x : Array α) (nodes : List UInt64) :
    scatter l x nodes = scatterByNode l x nodes := by
  -- the nodes from place `k` on take what is left of the local vector there
  have hLoop (k : Nat) (hl : l.length = 3 * (k + nodes.length)) :
      addAll x ((nodes.flatMap addresses).zip (l.drop (3 * k))) =
        (nodes.zipIdx k).foldlM (fun x (node, k) => addNodeAt l x node k) x := by
    induction nodes generalizing k x with
    | nil => rfl
    | cons node nodes ih =>
        rw [List.length_cons] at hl
        have h₀ : 3 * k < l.length := by omega
        have h₁ : 3 * k + 1 < l.length := by omega
        have h₂ : 3 * k + 2 < l.length := by omega
        have hDrop : l.drop (3 * k) =
            l[3 * k] :: l[3 * k + 1] :: l[3 * k + 2] :: l.drop (3 * (k + 1)) := by
          rw [List.drop_eq_getElem_cons h₀, List.drop_eq_getElem_cons h₁,
            List.drop_eq_getElem_cons h₂, Nat.mul_succ]
        have hNode : addNodeAt l x node k = ((addAt x (address node 0) l[3 * k]).bind fun x =>
            (addAt x (address node 1) l[3 * k + 1]).bind fun x =>
              addAt x (address node 2) l[3 * k + 2]) := by
          simp only [addNodeAt, List.foldlM_cons, List.foldlM_nil, Nat.add_zero,
            List.getElem?_eq_getElem h₀, List.getElem?_eq_getElem h₁,
            List.getElem?_eq_getElem h₂, Option.bind_eq_bind, Option.bind_some]
          simp
        rw [List.flatMap_cons, hDrop, addresses_eq, List.zipIdx_cons, List.foldlM_cons]
        simp only [hNode, List.cons_append, List.nil_append, List.zip_cons_cons, addAll_cons,
          Option.bind_eq_bind, Option.bind_assoc, ih _ (k + 1) (by omega)]
  rw [scatter, scatterByNode]
  split
  · next hl => exact hLoop 0 (by omega)
  · rfl

/-! ### Nodes in range -/

/-- Whether all components of the nodes are in a vector with `n` components, of which there are no
more than machine words. -/
structure InRange (nodes : List UInt64) (n : Nat) : Prop where
  words : n ≤ 2 ^ 64
  lt : ∀ i ∈ nodes, 3 * i.toNat + 2 < n

variable {nodes : List UInt64} {n : Nat}

/-- The address of a component is its number up to multiples of `2 ^ 64`. -/
theorem toNat_address_eq_mod (i : UInt64) {c : Nat} (hc : c < 3) :
    (address i c).toNat = (3 * i.toNat + c) % 2 ^ 64 := by
  have hComponent : (UInt64.ofNat c).toNat = c :=
    UInt64.toNat_ofNat_of_lt' (hc.trans (by decide))
  have hThree : (3 : UInt64).toNat = 3 := rfl
  rw [address, UInt64.toNat_add, UInt64.toNat_mul, hComponent, hThree, Nat.mod_add_mod]

/-- The addresses of a node in range do not wrap around. -/
theorem InRange.toNat_address (h : InRange nodes n) {i : UInt64} (hi : i ∈ nodes) {c : Nat}
    (hc : c < 3) : (address i c).toNat = 3 * i.toNat + c := by
  have hLt := h.lt i hi
  have hWords := h.words
  rw [toNat_address_eq_mod i hc, Nat.mod_eq_of_lt (by omega)]

/-- The addresses of a node in range are those of its components. -/
theorem InRange.exists_of_mem (h : InRange nodes n) {i : UInt64} (hi : i ∈ nodes) {a : UInt64}
    (ha : a ∈ addresses i) : ∃ c < 3, a.toNat = 3 * i.toNat + c := by
  rw [addresses_eq] at ha
  rcases List.mem_cons.mp ha with rfl | ha
  · exact ⟨0, by decide, h.toNat_address hi (by decide)⟩
  · rcases List.mem_pair.mp ha with rfl | rfl
    · exact ⟨1, by decide, h.toNat_address hi (by decide)⟩
    · exact ⟨2, by decide, h.toNat_address hi (by decide)⟩

theorem InRange.address_lt (h : InRange nodes n) {a : UInt64} (ha : a ∈ nodes.flatMap addresses) :
    a.toNat < n := by
  obtain ⟨i, hi, ha⟩ := List.mem_flatMap.mp ha
  obtain ⟨c, hc, hac⟩ := h.exists_of_mem hi ha
  have hLt := h.lt i hi
  omega

omit [Scalar α] in
theorem length_flatMap_addresses (nodes : List UInt64) :
    (nodes.flatMap addresses).length = 3 * nodes.length := by
  induction nodes with
  | nil => rfl
  | cons i nodes ih =>
      rw [List.flatMap_cons, List.length_append, ih, List.length_cons, Nat.mul_succ, Nat.add_comm]
      rfl

/-- Distinct nodes in range have distinct addresses. -/
theorem InRange.nodup_addresses (h : InRange nodes n) (hNodes : nodes.Nodup) :
    ((nodes.flatMap addresses).map UInt64.toNat).Nodup := by
  induction nodes with
  | nil => exact List.nodup_nil
  | cons i nodes ih =>
      obtain ⟨hNew, hRest⟩ := List.nodup_cons.mp hNodes
      have hTail : InRange nodes n := ⟨h.words, fun j hj => h.lt j (List.mem_cons_of_mem i hj)⟩
      have hOwn (c : Nat) (hc : c < 3) : (address i c).toNat = 3 * i.toNat + c :=
        h.toNat_address List.mem_cons_self hc
      rw [List.flatMap_cons, List.map_append, List.nodup_append]
      refine ⟨?_, ih hTail hRest, fun k hk k' hk' hSame => ?_⟩
      · rw [addresses_eq]
        simp [hOwn]
      · obtain ⟨a, ha, hak⟩ := List.mem_map.mp hk
        obtain ⟨b, hb, hbk⟩ := List.mem_map.mp hk'
        obtain ⟨c, hc, hac⟩ := h.exists_of_mem List.mem_cons_self ha
        obtain ⟨j, hj, hb⟩ := List.mem_flatMap.mp hb
        obtain ⟨d, hd, hbd⟩ := hTail.exists_of_mem hj hb
        have hNode : i.toNat = j.toNat := by omega
        exact hNew (UInt64.toNat_inj.mp hNode ▸ hj)

/-- Nodes in range are read, component by component. -/
theorem InRange.gather_eq {x : Array α} (h : InRange nodes x.size) :
    gather x nodes (3 * nodes.length) =
      some ((nodes.flatMap addresses).map fun a => (x[a.toNat]?).getD 0) := by
  have hRead (l : List UInt64) (hl : ∀ a ∈ l, a.toNat < x.size) :
      l.mapM (fun a => x[a.toNat]?) = some (l.map fun a => (x[a.toNat]?).getD 0) := by
    induction l with
    | nil => rfl
    | cons a l ih =>
        have ha := Array.getElem?_eq_getElem (hl a List.mem_cons_self)
        rw [List.mapM_cons, ih fun b hb => hl b (List.mem_cons_of_mem a hb), List.map_cons, ha]
        rfl
  rw [gather, if_pos rfl]
  exact hRead _ fun a => h.address_lt

/-! ### Additions -/

variable {K : Type} [ExactScalar K]

/-- The sum of the values that are sent to a component. -/
def received (pairs : List (UInt64 × K)) (j : Nat) : K :=
  (pairs.map fun p => if p.1.toNat = j then p.2 else 0).sum

/-- Additions inside of a vector change each component by what it receives. -/
theorem addAll_eq_some {x : Array K} {pairs : List (UInt64 × K)}
    (h : ∀ p ∈ pairs, p.1.toNat < x.size) : ∃ x', addAll x pairs = some x' ∧ x'.size = x.size ∧
      ∀ j, x'[j]? = x[j]?.map (· + received pairs j) := by
  induction pairs generalizing x with
  | nil => exact ⟨x, rfl, rfl, fun j => by simp [received]⟩
  | cons p pairs ih =>
      obtain ⟨a, value⟩ := p
      obtain ⟨x', hAll, hSize, hGet⟩ := ih (x := x.modify a.toNat (· + value)) fun p hp => by
        rw [Array.size_modify]
        exact h p (List.mem_cons_of_mem _ hp)
      rw [Array.size_modify] at hSize
      refine ⟨x', ?_, hSize, fun j => ?_⟩
      · rw [addAll, if_pos (h _ List.mem_cons_self), hAll]
      · rw [hGet, Array.getElem?_modify, received, received, List.map_cons, List.sum_cons]
        split
        · simp [Option.map_map, Function.comp_def, add_assoc]
        · simp

theorem received_eq_zero {pairs : List (UInt64 × K)} {j : Nat} (h : ∀ p ∈ pairs, p.1.toNat ≠ j) :
    received pairs j = 0 := by
  refine List.sum_eq_zero fun value hValue => ?_
  obtain ⟨p, hp, rfl⟩ := List.mem_map.mp hValue
  exact if_neg (h p hp)

/-- A weighted sum of what all components receive is a weighted sum of the values. -/
theorem sum_mul_received {pairs : List (UInt64 × K)} (h : ∀ p ∈ pairs, p.1.toNat < n)
    (f : Nat → K) :
    ∑ j : Fin n, f j * received pairs j = (pairs.map fun p => f p.1.toNat * p.2).sum := by
  simp only [received, ← List.sum_map_mul_left, sum_list_sum, mul_ite, mul_zero]
  refine congrArg List.sum (List.map_congr_left fun p hp => ?_)
  exact sum_ite_val_eq (h p hp) fun j => f j * p.2

/-- If no address occurs twice, each of them receives its own value only. -/
theorem map_received_zip {l : List UInt64} {values : List K} (hNodup : (l.map UInt64.toNat).Nodup)
    (hLength : l.length = values.length) :
    (l.map fun a => received (l.zip values) a.toNat) = values := by
  induction l generalizing values with
  | nil => exact (List.length_eq_zero_iff.mp hLength.symm).symm
  | cons a l ih =>
      cases values with
      | nil => cases hLength
      | cons value values =>
          obtain ⟨hNew, hRest⟩ := List.nodup_cons.mp hNodup
          have hOther {b : UInt64} (hb : b ∈ l) : b.toNat ≠ a.toNat :=
            fun h => hNew (h ▸ List.mem_map_of_mem hb)
          have hFirst : received (l.zip values) a.toNat = 0 :=
            received_eq_zero fun p hp => hOther (List.of_mem_zip hp).1
          have hTail : (l.map fun b => received ((a, value) :: l.zip values) b.toNat) =
              l.map fun b => received (l.zip values) b.toNat := by
            refine List.map_congr_left fun b hb => ?_
            rw [received, List.map_cons, List.sum_cons, if_neg (hOther hb).symm, zero_add]
            rfl
          rw [List.zip_cons_cons, List.map_cons, hTail, ih hRest (Nat.succ.inj hLength)]
          rw [received, List.map_cons, List.sum_cons, if_pos rfl, ← received, hFirst, add_zero]

/-- A local vector is added to nodes in range, and each component changes by what it receives. -/
theorem InRange.scatter_eq {x : Array K} (h : InRange nodes x.size) {l : List K}
    (hl : l.length = 3 * nodes.length) : ∃ x', scatter l x nodes = some x' ∧ x'.size = x.size ∧
      ∀ j, x'[j]? = x[j]?.map (· + received ((nodes.flatMap addresses).zip l) j) := by
  rw [scatter, if_pos hl]
  exact addAll_eq_some fun p hp => h.address_lt (List.of_mem_zip hp).1

/-- The product of stacked vectors as a sum over their components. -/
theorem dot_eq_sum_getD {x y : Array K} (hx : x.size = n) (hy : y.size = n) :
    Stacked.dot x y = ∑ j : Fin n, (x[j.val]?).getD 0 * (y[j.val]?).getD 0 := by
  have hLength : (x.zipWith (· * ·) y).toList.length = n := by simp [hx, hy]
  rw [Stacked.dot, ← Fin.sum_univ_getElem,
    ← Fintype.sum_equiv (finCongr hLength.symm) _ _ fun _ => rfl]
  refine Finset.sum_congr rfl fun j _ => ?_
  rw [Array.getElem?_eq_getElem (hx ▸ j.isLt), Array.getElem?_eq_getElem (hy ▸ j.isLt)]
  simp

/-- Reading is adjoint to adding to a vector of zeros. -/
theorem InRange.dot_gather {g scattered : Array K} (h : InRange nodes g.size) {l gathered : List K}
    (hl : l.length = 3 * nodes.length) (hGather : gather g nodes l.length = some gathered)
    (hScatter : scatter l (Array.replicate g.size 0) nodes = some scattered) :
    Stacked.dot gathered.toArray l.toArray = Stacked.dot g scattered := by
  let pairs := (nodes.flatMap addresses).zip l
  have hZero : (Array.replicate g.size (0 : K)).size = g.size := Array.size_replicate
  obtain ⟨x', hSome, hSize, hGet⟩ := InRange.scatter_eq (hZero.symm ▸ h) hl
  obtain rfl := Option.some.inj (hScatter.symm.trans hSome)
  rw [hl, h.gather_eq] at hGather
  cases hGather
  have hReceived (j : Fin g.size) : (scattered[j.val]?).getD 0 = received pairs j := by
    rw [hGet, Array.getElem?_replicate, if_pos j.isLt, Option.map_some, Option.getD_some, zero_add]
  calc Stacked.dot (List.map (fun a => (g[a.toNat]?).getD 0) (nodes.flatMap addresses)).toArray
        l.toArray
      = (pairs.map fun p => (g[p.1.toNat]?).getD 0 * p.2).sum := by
        simp [Stacked.dot, pairs, List.zip_eq_zipWith, List.map_zipWith, List.zipWith_map_left]
    _ = ∑ j : Fin g.size, (g[j.val]?).getD 0 * received pairs j :=
        (sum_mul_received (fun p hp => h.address_lt (List.of_mem_zip hp).1)
          fun k => (g[k]?).getD 0).symm
    _ = Stacked.dot g scattered := by
        rw [dot_eq_sum_getD rfl (hSize.trans hZero)]
        exact Finset.sum_congr rfl fun j _ => by rw [hReceived]

/-- Adding to distinct nodes and reading them again gives the sum. -/
theorem InRange.gather_scatter {x x' : Array K} (h : InRange nodes x.size) {l before : List K}
    (hl : l.length = 3 * nodes.length) (hNodes : nodes.Nodup)
    (hGather : gather x nodes l.length = some before) (hScatter : scatter l x nodes = some x') :
    gather x' nodes l.length = some (List.zipWith (· + ·) before l) := by
  let places := nodes.flatMap addresses
  obtain ⟨x'', hSome, hSize, hGet⟩ := h.scatter_eq hl
  obtain rfl := Option.some.inj (hScatter.symm.trans hSome)
  rw [hl, h.gather_eq] at hGather
  cases hGather
  have hNodup : (places.map UInt64.toNat).Nodup := h.nodup_addresses hNodes
  have hLength : places.length = l.length := (length_flatMap_addresses nodes).trans hl.symm
  have hRead : places.map (fun a => (x'[a.toNat]?).getD 0) =
      places.map fun a => (x[a.toNat]?).getD 0 + received (places.zip l) a.toNat := by
    refine List.map_congr_left fun a ha => ?_
    rw [hGet, Array.getElem?_eq_getElem (h.address_lt ha)]
    rfl
  have hSum : (places.map fun a => (x[a.toNat]?).getD 0 + received (places.zip l) a.toNat) =
      List.zipWith (· + ·) (places.map fun a => (x[a.toNat]?).getD 0)
        (places.map fun a => received (places.zip l) a.toNat) := by
    rw [List.zipWith_map, List.zipWith_self]
  rw [hl, InRange.gather_eq (hSize.symm ▸ h), hRead, hSum, map_received_zip hNodup hLength]

/-- Transfer between local and stacked vectors. Let all nodes of a list be in range, some of them
perhaps repeatedly. Reading is the loop over the components of the local vector and adding the loop
over nodes and their components. Reading is adjoint to adding to a vector of zeros. An addition
changes no other node, and whatever the vector held before is added to the result. With distinct
nodes, the sum is read back. -/
theorem gather_adjoint_scatter {g : Array K} {nodes : List UInt64} {l : List K}
    (hNodes : InRange nodes g.size) (hl : l.length = 3 * nodes.length) :
    (gather g nodes l.length = gatherByComponent g nodes l.length ∧
      ∀ h, scatter l h nodes = scatterByNode l h nodes) ∧
    (∃ gathered scattered, gather g nodes l.length = some gathered ∧
      scatter l (Array.replicate g.size 0) nodes = some scattered ∧ scattered.size = g.size ∧
      Stacked.dot gathered.toArray l.toArray = Stacked.dot g scattered) ∧
    ∀ h : Array K, h.size = g.size → ∃ h', scatter l h nodes = some h' ∧ h'.size = h.size ∧
      (∀ m, (∀ i ∈ nodes, i.toNat ≠ m) → ∀ c < 3, h'[3 * m + c]? = h[3 * m + c]?) ∧
      (∀ k : Array K, k.size = h.size →
        scatter l (Stacked.add h k) nodes = some (Stacked.add h' k)) ∧
      (nodes.Nodup → ∃ before, gather h nodes l.length = some before ∧
        gather h' nodes l.length = some (List.zipWith (· + ·) before l)) := by
  have hZero : (Array.replicate g.size (0 : K)).size = g.size := Array.size_replicate
  refine ⟨⟨gather_eq_gatherByComponent g nodes l.length,
    fun h => scatter_eq_scatterByNode l h nodes⟩, ?_, fun h hSize => ?_⟩
  · obtain ⟨scattered, hScatter, hScattered, _⟩ := InRange.scatter_eq (hZero.symm ▸ hNodes) hl
    have hGather := hNodes.gather_eq
    rw [← hl] at hGather
    exact ⟨_, scattered, hGather, hScatter, hScattered.trans hZero,
      hNodes.dot_gather hl hGather hScatter⟩
  · have hRange : InRange nodes h.size := hSize.symm ▸ hNodes
    obtain ⟨h', hScatter, hSize', hGet⟩ := hRange.scatter_eq hl
    refine ⟨h', hScatter, hSize', fun m hOther c hc => ?_, fun k hk => ?_, fun hNodup => ?_⟩
    · have hNone : received ((nodes.flatMap addresses).zip l) (3 * m + c) = 0 := by
        refine received_eq_zero fun p hp => ?_
        obtain ⟨i, hi, ha⟩ := List.mem_flatMap.mp (List.of_mem_zip hp).1
        obtain ⟨d, hd, hAddress⟩ := hRange.exists_of_mem hi ha
        have := hOther i hi
        omega
      simp [hGet, hNone]
    · have hSum : (Stacked.add h k).size = h.size := Stacked.size_add rfl hk
      obtain ⟨s, hSome, hSizeSum, hGetSum⟩ := InRange.scatter_eq (hSum.symm ▸ hRange) hl
      rw [hSome]
      refine congrArg some (Array.ext_getElem? fun j => ?_)
      rw [hGetSum, Stacked.add, Stacked.add, Array.getElem?_zipWith, Array.getElem?_zipWith, hGet]
      cases h[j]? with
      | none => rfl
      | some y =>
          cases k[j]? with
          | none => rfl
          | some z => exact congrArg some (add_right_comm y z _)
    · have hGather := hRange.gather_eq
      rw [← hl] at hGather
      exact ⟨_, hGather, hRange.gather_scatter hl hNodup hGather hScatter⟩

/-- A list with a repeated node: what is read for the unit vectors is what they add. -/
theorem gather_adjoint_scatter_repeated :
    let g : Array ℚ := #[1, 2, 3, 4, 5, 6, 7, 8, 9]
    let l : List ℚ := [1, 0, 0, 0, 1, 0, 0, 0, 1]
    InRange [2, 0, 2] g.size ∧ l.length = 3 * [2, 0, 2].length ∧
      gather g [2, 0, 2] l.length = some [7, 8, 9, 1, 2, 3, 7, 8, 9] ∧
      ∃ scattered, scatter l (Array.replicate g.size 0) [2, 0, 2] = some scattered ∧
        Stacked.dot g scattered = 7 + 2 + 9 := by
  intro g l
  have hRange : InRange [2, 0, 2] g.size := ⟨by decide, by simp [g]⟩
  have hGather : gather g [2, 0, 2] l.length = some [7, 8, 9, 1, 2, 3, 7, 8, 9] := by
    decide +kernel
  obtain ⟨_, ⟨gathered, scattered, hGathered, hScatter, _, hDot⟩, _⟩ :=
    gather_adjoint_scatter hRange (l := l) rfl
  rw [hGather] at hGathered
  cases hGathered
  refine ⟨hRange, rfl, hGather, scattered, hScatter, ?_⟩
  rw [← hDot]
  norm_num [Stacked.dot, l]

/-! ### Elements -/

section

variable {E : ElementKind α} {e : E.Element} {x : Array α}

/-- Nodes of a vector with no more components than words are words themselves. -/
theorem toNat_ofNat_of_lt {i m : Nat} (hi : i < m) (hWords : 3 * m ≤ 2 ^ 64) :
    (UInt64.ofNat i).toNat = i :=
  UInt64.toNat_ofNat_of_lt' (show i < 2 ^ 64 by omega)

omit [Scalar α] in
theorem inRange_of_fits {m : Nat} (h : E.Fits e m) (hWords : 3 * m ≤ 2 ^ 64) :
    InRange ((E.nodes e).toList.map UInt64.ofNat) (3 * m) where
  words := hWords
  lt i hi := by
    obtain ⟨node, hNode, rfl⟩ := List.mem_map.mp hi
    have hLt := h.lt node hNode
    rw [toNat_ofNat_of_lt hLt hWords]
    omega

/-- An element reads its nodes from a stacked vector, as far as addresses are words. -/
theorem gather_element {m : Nat} (h : E.Fits e m) (hSize : x.size = 3 * m)
    (hWords : 3 * m ≤ 2 ^ 64) :
    gather x ((E.nodes e).toList.map UInt64.ofNat) (3 * E.nodeCount) =
      some ((Stacked.gather (E.nodes e) x).toList.flatMap Vec3.toList) := by
  have hRange : InRange ((E.nodes e).toList.map UInt64.ofNat) x.size :=
    hSize ▸ inRange_of_fits h hWords
  have hGather := hRange.gather_eq
  rw [List.length_map, Vector.length_toList] at hGather
  rw [hGather, Stacked.gather, Vector.toList_map, List.flatMap_map, List.map_flatMap,
    List.flatMap_map]
  refine congrArg some (List.flatMap_congr fun i hi => ?_)
  have hAddress (c : Nat) (hc : c < 3) : (address (UInt64.ofNat i) c).toNat = 3 * i + c := by
    rw [hRange.toNat_address (List.mem_map_of_mem hi) hc, toNat_ofNat_of_lt (h.lt i hi) hWords]
  rw [addresses_eq]
  simp [hAddress, Stacked.node, Vec3.toList, Vec3.ofFn]

/-- An element adds to its nodes in a stacked vector, as far as addresses are words. -/
theorem scatter_element {m : Nat} (h : E.Fits e m) (hSize : x.size = 3 * m)
    (hWords : 3 * m ≤ 2 ^ 64) (v : Vector (Vec3 α) E.nodeCount) :
    scatter (v.toList.flatMap Vec3.toList) x ((E.nodes e).toList.map UInt64.ofNat) =
      some (Stacked.scatter (E.nodes e) v x) := by
  have hRange : InRange ((E.nodes e).toList.map UInt64.ofNat) (3 * m) := inRange_of_fits h hWords
  have hNode {i : Nat} (hi : i ∈ (E.nodes e).toList) {y : Array α} (hy : y.size = 3 * m)
      (f : Vec3 α) (rest : List (UInt64 × α)) :
      addAll y ((addresses (UInt64.ofNat i)).zip f.toList ++ rest) =
        addAll (Stacked.addNode y i f) rest := by
    have hAddress (c : Nat) (hc : c < 3) : (address (UInt64.ofNat i) c).toNat = 3 * i + c := by
      rw [hRange.toNat_address (List.mem_map_of_mem hi) hc, toNat_ofNat_of_lt (h.lt i hi) hWords]
    have hAdd (c : Nat) (hc : c < 3) {z : Array α} (hz : z.size = 3 * m) (value : α) :
        addAt z (address (UInt64.ofNat i) c) value = some (z.modify (3 * i + c) (· + value)) := by
      have := h.lt i hi
      rw [addAt, hAddress c hc, if_pos (by omega)]
    rw [addresses_eq]
    simp only [Vec3.toList, List.zip_cons_cons, List.zip_nil_left, List.cons_append,
      List.nil_append, addAll_cons, hAdd 0 (by decide) hy, Option.bind_some]
    rw [hAdd 1 (by decide) (by simp [hy]), Option.bind_some,
      hAdd 2 (by decide) (by simp [hy]), Option.bind_some]
    rfl
  have hAll (nodes : List Nat) (hNodes : ∀ i ∈ nodes, i ∈ (E.nodes e).toList) (vs : List (Vec3 α))
      (hLength : nodes.length = vs.length) {y : Array α} (hy : y.size = 3 * m) :
      addAll y (((nodes.map UInt64.ofNat).flatMap addresses).zip (vs.flatMap Vec3.toList)) =
        some ((nodes.zip vs).foldl (fun x p => Stacked.addNode x p.1 p.2) y) := by
    induction nodes generalizing vs y with
    | nil => rfl
    | cons i nodes ih =>
        cases vs with
        | nil => cases hLength
        | cons f vs =>
            have hRest := ih (fun j hj => hNodes j (List.mem_cons_of_mem i hj)) vs
              (Nat.succ.inj hLength) (y := Stacked.addNode y i f) (by simp [hy])
            have hSplit (l : List UInt64) (l' : List α) :
                (addresses (UInt64.ofNat i) ++ l).zip (f.toList ++ l') =
                  (addresses (UInt64.ofNat i)).zip f.toList ++ l.zip l' :=
              List.zip_append rfl
            rw [List.map_cons, List.flatMap_cons, List.flatMap_cons, hSplit,
              hNode (hNodes i List.mem_cons_self) hy, hRest]
            rfl
  have hLength : (v.toList.flatMap Vec3.toList).length =
      3 * ((E.nodes e).toList.map UInt64.ofNat).length := by
    simp [List.length_flatMap, Vec3.toList, Nat.mul_comm]
  rw [scatter, if_pos hLength, hAll _ (fun _ hi => hi) _ (by simp) hSize]
  rfl

end

end Elastodynamics.Dofs
