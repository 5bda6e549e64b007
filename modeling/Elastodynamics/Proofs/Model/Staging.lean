import Elastodynamics.Proofs.Element.Nodes
import Elastodynamics.Proofs.Outcome
import Elastodynamics.Model.Builder
/-!
Staging in builders. Until a builder is built, every command but a build appends nodes and elements
to those that are staged, and the elements have passed the check of their nodes against all nodes
there are then; after that, every command is rejected.
-/
namespace Elastodynamics

variable {α : Type}

/-- Whether the nodes of an element are distinct ones of `numNodes` nodes. -/
structure ElementKind.Fits (E : ElementKind α) (e : E.Element) (numNodes : Nat) : Prop where
  distinct : (E.nodes e).toList.Nodup
  lt : ∀ i ∈ (E.nodes e).toList, i < numNodes

theorem ElementKind.Fits.mono {E : ElementKind α} {e : E.Element} {n n' : Nat} (h : E.Fits e n)
    (hle : n ≤ n') : E.Fits e n' :=
  ⟨h.distinct, fun i hi => Nat.lt_of_lt_of_le (h.lt i hi) hle⟩

variable [ElementFamily α] {κ : Kind α}

namespace Builder

/-- Elements pass their check exactly if all of them fit. -/
theorem checkElements_eq_ok_iff {numNodes first : Nat} {elements : List (kind κ).Element} :
    checkElements numNodes first elements = .ok () ↔ ∀ e ∈ elements, (kind κ).Fits e numNodes := by
  have hElement (e : (kind κ).Element) :
      validateNodes ((kind κ).nodes e).toList (kind κ).nodeCount numNodes = .ok () ↔
        (kind κ).Fits e numNodes := by
    rw [validateNodes_eq_ok_iff]
    exact ⟨fun h => ⟨h.2.1, h.2.2⟩, fun h => ⟨((kind κ).nodes e).length_toList, h.distinct, h.lt⟩⟩
  induction elements generalizing first with
  | nil => exact ⟨fun _ => nofun, fun _ => rfl⟩
  | cons e elements ih =>
      rw [checkElements, List.forall_mem_cons, ← hElement]
      cases validateNodes ((kind κ).nodes e).toList (kind κ).nodeCount numNodes with
      | error reason => exact ⟨nofun, fun h => nomatch h.1⟩
      | ok u => exact ih.trans ⟨fun h => ⟨rfl, h⟩, fun h => h.2⟩

/-! ### What is staged -/

/-- The builder with further nodes and elements staged. -/
def stage (b : Builder α κ) (nodes : List (Vec3 α)) (elements : List (kind κ).Element) :
    Builder α κ :=
  { b with
    pendingNodes := b.pendingNodes ++ nodes.toArray
    pendingElements := b.pendingElements ++ elements.toArray }

variable {b : Builder α κ}

theorem stage_nil (b : Builder α κ) : b.stage [] [] = b := by simp [stage]

theorem numNodes_stage (b : Builder α κ) (nodes : List (Vec3 α))
    (elements : List (kind κ).Element) :
    (b.stage nodes elements).numNodes = b.numNodes + nodes.length := by
  simp [stage, numNodes, Nat.add_assoc]

theorem addNodes_eq (hOpen : b.built = false) (positions : List (Vec3 α)) :
    b.addNodes positions =
      (b.stage positions [], .ok (b.numNodes, b.numNodes + positions.length)) := by
  simp [addNodes, hOpen, stage, numNodes, Nat.add_assoc]

theorem addNodes_of_open (hOpen : b.built = false) (positions : List (Vec3 α)) :
    (b.addNodes positions).1 = b.stage positions [] :=
  congrArg Prod.fst (addNodes_eq hOpen positions)

theorem addNode_eq_addNodes (b : Builder α κ) (position : Vec3 α) :
    (b.addNode position).1 = (b.addNodes [position]).1 := by
  rw [addNode, addNodes]
  split
  · rfl
  · rw [Array.push_eq_append]

theorem addElement_eq_addElements (b : Builder α κ) (e : (kind κ).Element) :
    (b.addElement e).1 = (b.addElements [e]).1 := by
  rw [addElement, addElements]
  split
  · rfl
  · split
    · rfl
    · rw [Array.push_eq_append]

/-- Elements are staged if all of them fit, and otherwise none is. -/
theorem addElements_of_open (hOpen : b.built = false) (elements : List (kind κ).Element) :
    (b.addElements elements).1 = b ∨
      (b.addElements elements).1 = b.stage [] elements ∧
        ∀ e ∈ elements, (kind κ).Fits e b.numNodes := by
  rw [addElements, if_neg (hOpen ▸ Bool.false_ne_true)]
  split
  · exact .inl rfl
  · next hCheck =>
      refine .inr ⟨?_, checkElements_eq_ok_iff.mp hCheck⟩
      simp [stage]

/-- The elements on a list of cells are those on each of them, in order. -/
theorem elementsOfCells_eq_ok {vertices : Array (Vec3 α)} {offset first : Nat}
    {properties : (kind κ).Properties} {cells : List (Vector Nat (kind κ).nodeCount)}
    {elements : List (kind κ).Element}
    (h : elementsOfCells vertices offset properties first cells = .ok elements) :
    cells.map (elementOfCell vertices offset properties) = elements.map .ok := by
  induction cells generalizing first elements with
  | nil =>
      cases h
      rfl
  | cons cell cells ih =>
      rw [elementsOfCells] at h
      cases hCell : elementOfCell vertices offset properties cell with
      | error reason =>
          rw [hCell] at h
          cases h
      | ok e =>
          rw [hCell] at h
          obtain ⟨rest, hRest, h⟩ := bind_eq_ok_iff.mp h
          cases h
          rw [List.map_cons, List.map_cons, hCell, ih hRest]

theorem exists_of_elementsOfCells {vertices : Array (Vec3 α)} {offset first : Nat}
    {properties : (kind κ).Properties} {cells : List (Vector Nat (kind κ).nodeCount)}
    {elements : List (kind κ).Element}
    (h : elementsOfCells vertices offset properties first cells = .ok elements) :
    ∀ e ∈ elements, ∃ cell, elementOfCell vertices offset properties cell = .ok e := by
  intro e he
  have hMem : Except.ok e ∈ cells.map (elementOfCell vertices offset properties) := by
    rw [elementsOfCells_eq_ok h]
    exact List.mem_map_of_mem he
  obtain ⟨cell, _, hCell⟩ := List.mem_map.mp hMem
  exact ⟨cell, hCell⟩

theorem constructed_of_elementOfCell {vertices : Array (Vec3 α)} {offset : Nat}
    {properties : (kind κ).Properties} {cell : Vector Nat (kind κ).nodeCount} {e : (kind κ).Element}
    (h : elementOfCell vertices offset properties cell = .ok e) : (kind κ).Constructed e := by
  obtain ⟨_, _, hVertices⟩ := bind_eq_ok_iff.mp h
  exact (kind κ).constructed_of_ofVertices hVertices

/-- Cells are rejected before anything is staged, or their vertices are staged, with all of their
elements or without any. -/
theorem addCells_of_open (hOpen : b.built = false) (vertices : List (Vec3 α))
    (cells : List (Vector Nat (kind κ).nodeCount)) (properties : (kind κ).Properties) :
    ∃ nodes elements, (b.addCells vertices cells properties).1 = b.stage nodes elements ∧
      ∀ e ∈ elements, (kind κ).Fits e (b.numNodes + nodes.length) ∧
        ∃ cell, elementOfCell nodes.toArray b.numNodes properties cell = .ok e := by
  rw [addCells, if_neg (hOpen ▸ Bool.false_ne_true)]
  split
  · exact ⟨[], [], b.stage_nil.symm, nofun⟩
  · next elements hCells =>
      have hNodes := addNodes_of_open hOpen vertices
      split
      · next hAdd =>
          rw [hAdd] at hNodes
          exact ⟨vertices, [], hNodes, nofun⟩
      · next b' _ hAdd =>
          rw [hAdd] at hNodes
          replace hNodes : b' = b.stage vertices [] := hNodes
          subst hNodes
          have hStaged : (b.stage vertices []).built = false := hOpen
          rcases addElements_of_open hStaged elements with hSame | ⟨hResult, hFits⟩
          · exact ⟨vertices, [], hSame, nofun⟩
          · have hCell := exists_of_elementsOfCells hCells
            refine ⟨vertices, elements, ?_, fun e he => ⟨?_, hCell e he⟩⟩
            · rw [hResult]
              simp [stage]
            · exact numNodes_stage b vertices [] ▸ hFits e he

end Builder

/-! ### Commands -/

/-- Whether the elements that a command brings along were made from vertices. -/
def Command.Constructed : Command α κ → Prop
  | .addElement e => (kind κ).Constructed e
  | .addElements elements => ∀ e ∈ elements, (kind κ).Constructed e
  | _ => True

namespace Command

@[simp] theorem constructed_addNode (x : Vec3 α) : (addNode x : Command α κ).Constructed := trivial

@[simp] theorem constructed_addCells (vertices : List (Vec3 α))
    (cells : List (Vector Nat (kind κ).nodeCount)) (properties : (kind κ).Properties) :
    (addCells vertices cells properties).Constructed :=
  trivial

@[simp] theorem constructed_build : (build : Command α κ).Constructed := trivial

end Command

namespace Builder

variable {b : Builder α κ}

/-- A builder that has been built rejects every command, a further build too. -/
theorem execute_of_built (hBuilt : b.built = true) (ids : IdSupply) (c : Command α κ) :
    b.execute ids c = (b, ids, .error .builderConsumed) := by
  cases c with
  | addNode position => simp [execute, addNode, hBuilt, Except.map]
  | addNodes positions => simp [execute, addNodes, hBuilt, Except.map]
  | addElement e => simp [execute, addElement, hBuilt, Except.map]
  | addElements elements => simp [execute, addElements, hBuilt, Except.map]
  | addCells vertices cells properties => simp [execute, addCells, hBuilt, Except.map]
  | build => simp [execute, build, hBuilt, Except.map]

/-- What a command other than a build does, whether it is rejected or not: it stages nodes, and
elements that fit the nodes there are then. -/
theorem execute_of_open (hOpen : b.built = false) (ids : IdSupply) {c : Command α κ}
    (hc : c ≠ .build) : (b.execute ids c).2.1 = ids ∧
      ∃ nodes elements, (b.execute ids c).1 = b.stage nodes elements ∧
        (∀ e ∈ elements, (kind κ).Fits e (b.numNodes + nodes.length)) ∧
        (c.Constructed → ∀ e ∈ elements, (kind κ).Constructed e) := by
  have hElements (elements : List (kind κ).Element) : ∃ nodes staged,
      (b.addElements elements).1 = b.stage nodes staged ∧
        (∀ e ∈ staged, (kind κ).Fits e (b.numNodes + nodes.length)) ∧
        ∀ e ∈ staged, e ∈ elements := by
    rcases addElements_of_open hOpen elements with hSame | ⟨hResult, hFits⟩
    · exact ⟨[], [], hSame.trans b.stage_nil.symm, nofun, nofun⟩
    · exact ⟨[], elements, hResult, hFits, fun e he => he⟩
  cases c with
  | addNode position =>
      refine ⟨rfl, [position], [], ?_, nofun, fun _ => nofun⟩
      exact (addNode_eq_addNodes b position).trans (addNodes_of_open hOpen [position])
  | addNodes positions =>
      exact ⟨rfl, positions, [], addNodes_of_open hOpen positions, nofun, fun _ => nofun⟩
  | addElement e =>
      obtain ⟨nodes, staged, hResult, hFits, hMem⟩ := hElements [e]
      refine ⟨rfl, nodes, staged, (addElement_eq_addElements b e).trans hResult, hFits, ?_⟩
      intro hConstructed e' he'
      rw [List.mem_singleton.mp (hMem e' he')]
      exact hConstructed
  | addElements elements =>
      obtain ⟨nodes, staged, hResult, hFits, hMem⟩ := hElements elements
      exact ⟨rfl, nodes, staged, hResult, hFits, fun hAll e he => hAll e (hMem e he)⟩
  | addCells vertices cells properties =>
      obtain ⟨nodes, staged, hResult, hFits⟩ := addCells_of_open hOpen vertices cells properties
      refine ⟨rfl, nodes, staged, hResult, fun e he => (hFits e he).1, fun _ e he => ?_⟩
      obtain ⟨_, cell, hCell⟩ := hFits e he
      exact constructed_of_elementOfCell hCell
  | build => exact absurd rfl hc

end Builder

end Elastodynamics
