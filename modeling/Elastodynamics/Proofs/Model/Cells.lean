import Elastodynamics.Proofs.Algebra.Vectors
import Elastodynamics.Proofs.Model.Session
/-!
Models whose elements are made on cells only. Vertices of cells are counted from the nodes that are
there when the cells are added, staged ones included. So through any number of sessions every
element stays at the reference positions of its nodes.
-/
namespace Elastodynamics

/-- That an element was made from the given reference positions of its nodes. -/
def ElementKind.Placed {α : Type} (E : ElementKind α) (positions : Array (Vec3 α))
    (e : E.Element) : Prop :=
  ∃ (X : Vector (Vec3 α) E.nodeCount) (properties : E.Properties),
    E.ofVertices (E.nodes e) X.toList properties = .ok e ∧
    ∀ a, positions[(E.nodes e).get a]? = some (X.get a)

/-- Appended nodes do not move the nodes that are there. -/
theorem ElementKind.Placed.append {α : Type} {E : ElementKind α} {e : E.Element}
    {positions : Array (Vec3 α)} (h : E.Placed positions e) (nodes : Array (Vec3 α)) :
    E.Placed (positions ++ nodes) e := by
  obtain ⟨X, properties, hMade, hPositions⟩ := h
  refine ⟨X, properties, hMade, fun a => ?_⟩
  have hLt := (Array.getElem?_eq_some_iff.mp (hPositions a)).1
  rw [Array.getElem?_append_left hLt, hPositions]

variable {α : Type} [ElementFamily α] {κ : Kind α}

/-- Whether a command brings along elements that were made before. -/
def Command.BringsElements : Command α κ → Prop
  | .addElement _ => True
  | .addElements _ => True
  | _ => False

namespace Command

@[simp] theorem not_bringsElements_addNode (x : Vec3 α) :
    ¬ (addNode x : Command α κ).BringsElements :=
  id

@[simp] theorem not_bringsElements_addCells (vertices : List (Vec3 α))
    (cells : List (Vector Nat (kind κ).nodeCount)) (properties : (kind κ).Properties) :
    ¬ (addCells vertices cells properties).BringsElements :=
  id

@[simp] theorem not_bringsElements_build : ¬ (build : Command α κ).BringsElements := id

end Command

namespace Builder

/-- That among commands to a builder, those that bring along elements are rejected, so that elements
can only come from cells. -/
def OnlyCells (b : Builder α κ) (ids : IdSupply) : List (Command α κ) → Prop
  | [] => True
  | c :: commands =>
    (c.BringsElements → ∃ err, (b.execute ids c).2.2 = .error err) ∧
      (b.execute ids c).1.OnlyCells (b.execute ids c).2.1 commands

/-- That every element, staged or not, is placed at the reference positions of its nodes. -/
structure Placed (b : Builder α κ) : Prop where
  elements : ∀ e ∈ b.model.elements, (kind κ).Placed b.model.referencePositions e
  pending : ∀ e ∈ b.pendingElements,
    (kind κ).Placed (b.model.referencePositions ++ b.pendingNodes) e

variable {b : Builder α κ} {ids : IdSupply}

/-! ### Elements on cells -/

omit [ElementFamily α] in
/-- A cell whose indices are in range has vertices. -/
theorem exists_vertices {n : Nat} {vertices : Array (Vec3 α)} {cell : Vector Nat n}
    (h : ∀ k ∈ cell.toList, k < vertices.size) :
    ∃ X : Vector (Vec3 α) n, ∀ a, vertices[cell.get a]? = some (X.get a) := by
  have hVertex (a : Fin n) : ∃ v, vertices[cell.get a]? = some v :=
    ⟨_, Array.getElem?_eq_getElem (h _ (Vector.mem_toList_iff.mpr (Vector.getElem_mem a.isLt)))⟩
  choose v hv using hVertex
  exact ⟨.ofFn v, fun a => by rw [vector_get_ofFn, hv]⟩

omit [ElementFamily α] in
/-- The vertices of a cell, as a list. -/
theorem filterMap_vertices {n : Nat} {vertices : Array (Vec3 α)} {cell : Vector Nat n}
    {X : Vector (Vec3 α) n} (h : ∀ a, vertices[cell.get a]? = some (X.get a)) :
    (cell.toList.filterMap fun k => vertices[k]?) = X.toList := by
  have hList {β : Type} (v : Vector β n) :
      v.toList = (List.finRange n).map v.get :=
    List.ext_getElem (by simp) fun k _ _ => by simp [Vector.get]
  rw [hList cell, hList X, List.filterMap_map, ← List.filterMap_eq_map]
  exact List.filterMap_congr fun a _ => h a

/-- An element on a cell is made from the vertices of the cell, and its nodes are those of the cell
after the first `offset` nodes. -/
theorem ofVertices_of_elementOfCell {vertices : Array (Vec3 α)} {offset : Nat}
    {properties : (kind κ).Properties} {cell : Vector Nat (kind κ).nodeCount} {e : (kind κ).Element}
    (h : elementOfCell vertices offset properties cell = .ok e) :
    cell.toList.Nodup ∧ (∀ k ∈ cell.toList, k < vertices.size) ∧
      ∃ X : Vector (Vec3 α) (kind κ).nodeCount, (∀ a, vertices[cell.get a]? = some (X.get a)) ∧
        (kind κ).ofVertices (cell.map (offset + ·)) X.toList properties = .ok e := by
  obtain ⟨_, hNodes, hVertices⟩ := bind_eq_ok_iff.mp h
  obtain ⟨_, hDistinct, hLt⟩ := validateNodes_eq_ok_iff.mp hNodes
  obtain ⟨X, hX⟩ := exists_vertices hLt
  rw [filterMap_vertices hX] at hVertices
  exact ⟨hDistinct, hLt, X, hX, hVertices⟩

/-- An element on a cell is placed as soon as the vertices follow the nodes before. -/
theorem placed_of_elementOfCell {before vertices : Array (Vec3 α)}
    {properties : (kind κ).Properties} {cell : Vector Nat (kind κ).nodeCount} {e : (kind κ).Element}
    (h : elementOfCell vertices before.size properties cell = .ok e) :
    (kind κ).Placed (before ++ vertices) e := by
  obtain ⟨_, _, X, hX, hVertices⟩ := ofVertices_of_elementOfCell h
  have hNodes := (kind κ).nodes_of_ofVertices hVertices
  refine ⟨X, properties, ?_, fun a => ?_⟩
  · rw [hNodes]
    exact hVertices
  · rw [hNodes, vector_get_map, Array.getElem?_append_right (Nat.le_add_right _ _),
      Nat.add_sub_cancel_left, hX]

/-- An element on a cell fits as soon as the vertices follow the nodes before. -/
theorem fits_of_elementOfCell {vertices : Array (Vec3 α)} {offset : Nat}
    {properties : (kind κ).Properties} {cell : Vector Nat (kind κ).nodeCount} {e : (kind κ).Element}
    (h : elementOfCell vertices offset properties cell = .ok e) :
    (kind κ).Fits e (offset + vertices.size) := by
  obtain ⟨hDistinct, hLt, X, _, hVertices⟩ := ofVertices_of_elementOfCell h
  have hNodes := (kind κ).nodes_of_ofVertices hVertices
  have hList : ((kind κ).nodes e).toList = cell.toList.map (offset + ·) := by
    rw [hNodes, Vector.toList_map]
  refine ⟨?_, fun i hi => ?_⟩
  · rw [hList]
    exact hDistinct.map fun _ _ h => Nat.add_left_cancel h
  · rw [hList] at hi
    obtain ⟨k, hk, rfl⟩ := List.mem_map.mp hi
    exact Nat.add_lt_add_left (hLt k hk) offset

/-- Cells are accepted if there is an element on each of them: the elements fit the nodes there are
with the vertices. -/
theorem addCells_of_elements (hOpen : b.built = false) {vertices : List (Vec3 α)}
    {cells : List (Vector Nat (kind κ).nodeCount)} {properties : (kind κ).Properties}
    {elements : List (kind κ).Element} (h : elementsOfCells vertices.toArray b.numNodes properties
      b.numElements cells = .ok elements) :
    b.addCells vertices cells properties =
      (b.stage vertices elements, .ok (b.numElements, b.numElements + elements.length)) := by
  have hFits : ∀ e ∈ elements, (kind κ).Fits e (b.stage vertices []).numNodes := by
    intro e he
    obtain ⟨cell, hCell⟩ := exists_of_elementsOfCells h e he
    rw [numNodes_stage]
    exact fits_of_elementOfCell hCell
  have hCheck : checkElements (b.stage vertices []).numNodes (b.stage vertices []).numElements
      elements = .ok () := checkElements_eq_ok_iff.mpr hFits
  have hAdd : (b.stage vertices []).addElements elements =
      (b.stage vertices elements, .ok (b.numElements, b.numElements + elements.length)) := by
    have hStill : (b.stage vertices []).built = false := hOpen
    rw [addElements, if_neg (Bool.eq_false_iff.mp hStill), hCheck]
    simp [stage, numElements, Nat.add_assoc]
  rw [addCells, if_neg (hOpen ▸ Bool.false_ne_true), h, addNodes_eq hOpen]
  exact hAdd

/-! ### Sessions -/

/-- Nodes and placed elements may be staged. -/
theorem Placed.stage (hb : b.Placed) {nodes : List (Vec3 α)} {elements : List (kind κ).Element}
    (h : ∀ e ∈ elements,
      (kind κ).Placed (b.model.referencePositions ++ b.pendingNodes ++ nodes.toArray) e) :
    (b.stage nodes elements).Placed where
  elements := hb.elements
  pending e he := by
    show (kind κ).Placed (b.model.referencePositions ++ (b.pendingNodes ++ nodes.toArray)) e
    rw [← Array.append_assoc]
    rcases Array.mem_append.mp he with he | he
    · exact (hb.pending e he).append _
    · exact h e (List.mem_toArray.mp he)

/-- Whether there is a pattern or not, a build makes what is staged part of the model. -/
theorem build_of_open (hOpen : b.built = false) (ids : IdSupply) :
    (b.build ids).1.model.elements = b.model.elements ++ b.pendingElements ∧
      (b.build ids).1.model.referencePositions = b.model.referencePositions ++ b.pendingNodes ∧
      (b.build ids).1.pendingElements = #[] ∧ (b.build ids).1.pendingNodes = #[] := by
  rw [Builder.build, if_neg (hOpen ▸ Bool.false_ne_true), TypedModel.extend]
  dsimp only
  split
  · exact ⟨rfl, rfl, rfl, rfl⟩
  · exact ⟨rfl, rfl, rfl, rfl⟩

theorem Placed.build (hb : b.Placed) (hOpen : b.built = false) : (b.build ids).1.Placed := by
  obtain ⟨hElements, hPositions, hPending, _⟩ := build_of_open hOpen ids
  refine ⟨fun e he => ?_, ?_⟩
  · rw [hPositions]
    rw [hElements] at he
    rcases Array.mem_append.mp he with he | he
    · exact (hb.elements e he).append _
    · exact hb.pending e he
  · rw [hPending]
    simp

/-- A builder that rejects elements stays as it was. -/
theorem addElements_of_error {elements : List (kind κ).Element} {err : ModelError}
    (h : (b.addElements elements).2 = .error err) : (b.addElements elements).1 = b := by
  rw [addElements] at h ⊢
  by_cases hBuilt : b.built = true
  · rw [if_pos hBuilt]
  · rw [if_neg hBuilt] at h ⊢
    cases hCheck : checkElements b.numNodes b.numElements elements with
    | error _ => rfl
    | ok u =>
        rw [hCheck] at h
        cases h

theorem addElement_reply (b : Builder α κ) (e : (kind κ).Element) :
    (b.addElement e).2 = (b.addElements [e]).2.map Prod.fst := by
  rw [addElement, addElements]
  split
  · rfl
  · split
    · rfl
    · rfl

/-- Every command keeps all elements placed, if it does not bring its own. -/
theorem Placed.execute (hb : b.Placed) {c : Command α κ}
    (hc : c.BringsElements → ∃ err, (b.execute ids c).2.2 = .error err) :
    (b.execute ids c).1.Placed := by
  by_cases hBuilt : b.built = true
  · rw [execute_of_built hBuilt]
    exact hb
  · have hOpen : b.built = false := by simpa using hBuilt
    cases c with
    | addNode position =>
        show (b.addNode position).1.Placed
        rw [addNode_eq_addNodes, addNodes_of_open hOpen]
        exact hb.stage nofun
    | addNodes positions =>
        show (b.addNodes positions).1.Placed
        rw [addNodes_of_open hOpen]
        exact hb.stage nofun
    | addElement e =>
        obtain ⟨err, hError⟩ := hc trivial
        have hReply : (b.addElements [e]).2 = .error err :=
          map_eq_error_iff.mp ((addElement_reply b e).symm.trans (map_eq_error_iff.mp hError))
        show (b.addElement e).1.Placed
        rw [addElement_eq_addElements, addElements_of_error hReply]
        exact hb
    | addElements elements =>
        obtain ⟨err, hError⟩ := hc trivial
        show (b.addElements elements).1.Placed
        rw [addElements_of_error (map_eq_error_iff.mp hError)]
        exact hb
    | addCells vertices cells properties =>
        obtain ⟨nodes, elements, hResult, hElements⟩ :=
          addCells_of_open hOpen vertices cells properties
        show (b.addCells vertices cells properties).1.Placed
        rw [hResult]
        refine hb.stage fun e he => ?_
        obtain ⟨_, cell, hCell⟩ := hElements e he
        rw [numNodes, ← Array.size_append] at hCell
        exact placed_of_elementOfCell hCell
    | build => exact hb.build hOpen

/-- Commands of which only cells bring elements keep all elements placed. -/
theorem Placed.run (hb : b.Placed) {commands : List (Command α κ)}
    (hCells : b.OnlyCells ids commands) : (b.run ids commands).1.Placed := by
  induction commands generalizing b ids with
  | nil => exact hb
  | cons c commands ih => exact ih (hb.execute hCells.1) hCells.2

end Builder

namespace TypedModel

/-- The models whose elements were made on cells only, in any number of sessions. -/
inductive CellBuilt : TypedModel α κ → Prop where
  | ofConfig (config : Config α) (ids : IdSupply) : CellBuilt (TypedModel.ofConfig config ids).1
  | session {m : TypedModel α κ} (prior : m.CellBuilt) {commands : List (Command α κ)}
      {ids : IdSupply} (hCommands : ∀ c ∈ commands, c.Constructed)
      (hCells : (Builder.ofModel m).OnlyCells ids commands) : CellBuilt (m.session commands ids).1

variable {m : TypedModel α κ}

theorem CellBuilt.wellFormed (h : m.CellBuilt) : m.WellFormed := by
  induction h with
  | ofConfig config ids => exact wellFormed_ofConfig config ids
  | @session m prior commands ids hCommands hCells ih =>
      rcases session_of_wellFormed ih hCommands ids with hSame | ⟨m', hNew, hm', _⟩
      · rw [hSame]
        exact ih
      · rw [hNew]
        exact hm'

/-- Every element of a model that was made on cells is at the reference positions of its nodes. -/
theorem CellBuilt.placed (h : m.CellBuilt) :
    ∀ e ∈ m.elements, (kind κ).Placed m.referencePositions e := by
  induction h with
  | ofConfig config ids => simp [TypedModel.ofConfig]
  | @session m prior commands ids hCommands hCells ih =>
      have hStart : (Builder.ofModel m).Placed := ⟨ih, by simp [Builder.ofModel]⟩
      exact (hStart.run hCells).elements

end TypedModel

end Elastodynamics
