import Elastodynamics.Proofs.Element.Matrices
import Elastodynamics.Proofs.Transactions
/-!
Adding cells compared with adding nodes and elements. Cells are checked against the vertices that
come with them, before anything is staged; their elements are checked once more against all nodes
when they are staged. The second check repeats the first one with shifted indices, so it never
fails, and cells are added either as their vertices and elements would be, or not at all.
-/
namespace Elastodynamics

variable {α : Type} [Scalar α] {S : Shape}

/-! ### Elements and their nodes -/

namespace Element

/-- The nodes of an element are recorded only: its geometry is that of the vertices. -/
theorem ofVertices_nodes [Quadrature.Rules α] (nodes nodes' : Vector Nat S.nodeCount)
    (X : Vector (Vec3 α) S.nodeCount) (properties : Properties α) :
    ofVertices nodes' X.toList properties =
      (ofVertices nodes X.toList properties).map fun e => { e with nodes := nodes' } := by
  rw [ofVertices_toList, ofVertices_toList]
  cases S.stiffnessRule.nodes.mapM fun p => quadraturePoint X p.1 p.2 with
  | error reason => rfl
  | ok points =>
      cases S.massRule.nodes.mapM fun p => massPoint X properties.density p.1 p.2 with
      | error reason => rfl
      | ok masses => rfl

theorem quadraturePoint_eq_error {X : Vector (Vec3 α) S.nodeCount} {w : α} {ξ : Vec3 α}
    {reason : ElementError} (h : quadraturePoint X w ξ = .error reason) :
    reason = .degenerateGeometry := by
  rw [quadraturePoint] at h
  split at h
  · cases h
    rfl
  · split at h
    · cases h
      rfl
    · cases h

theorem massPoint_eq_error {X : Vector (Vec3 α) S.nodeCount} {density w : α} {ξ : Vec3 α}
    {reason : ElementError} (h : massPoint X density w ξ = .error reason) :
    reason = .degenerateGeometry := by
  rw [massPoint] at h
  split at h
  · cases h
    rfl
  · cases h

/-- Vertices in the right number can only be rejected for their geometry. -/
theorem ofVertices_eq_error [Quadrature.Rules α] {nodes : Vector Nat S.nodeCount}
    {X : Vector (Vec3 α) S.nodeCount} {properties : Properties α} {reason : ElementError}
    (h : ofVertices nodes X.toList properties = .error reason) : reason = .degenerateGeometry := by
  rw [ofVertices_toList] at h
  rcases bind_eq_error_iff.mp h with hPoints | ⟨_, _, h⟩
  · obtain ⟨_, _, hPoint⟩ := exists_of_mapM_eq_error hPoints
    exact quadraturePoint_eq_error hPoint
  · rcases bind_eq_error_iff.mp h with hMasses | ⟨_, _, h⟩
    · obtain ⟨_, _, hMass⟩ := exists_of_mapM_eq_error hMasses
      exact massPoint_eq_error hMass
    · cases h

end Element

variable [Quadrature.Rules α]

/-! ### Cells -/

/-- Whether there is an element on a cell: its indices are distinct ones of the vertices, and an
element can be made from the vertices they stand for. -/
structure CellAccepted (vertices : List (Vec3 α)) (properties : Properties α)
    (cell : Vector Nat S.nodeCount) : Prop where
  distinct : cell.toList.Nodup
  lt : ∀ i ∈ cell.toList, i < vertices.length
  made : ∃ X : Vector (Vec3 α) S.nodeCount, (∀ a, vertices[cell.get a]? = some (X.get a)) ∧
    ∃ e, Element.ofVertices cell X.toList properties = .ok e

/-- The first reason to reject a cell. Its indices are looked at one by one, for each of them first
whether there is such a vertex and then whether it occurs before; the geometry comes last. -/
inductive CellFault (vertices : List (Vec3 α)) (properties : Properties α)
    (cell : Vector Nat S.nodeCount) : ElementError → Prop where
  | outOfBounds {before after : List Nat} {i : Nat} (split : cell.toList = before ++ i :: after)
      (distinct : before.Nodup) (lt : ∀ j ∈ before, j < vertices.length)
      (outside : vertices.length ≤ i) :
      CellFault vertices properties cell (.nodeOutOfBounds i vertices.length)
  | repeated {before after : List Nat} {i : Nat} (split : cell.toList = before ++ i :: after)
      (distinct : before.Nodup) (lt : ∀ j ∈ before, j < vertices.length) (mem : i ∈ before) :
      CellFault vertices properties cell (.repeatedNode i)
  | degenerate {X : Vector (Vec3 α) S.nodeCount} (distinct : cell.toList.Nodup)
      (lt : ∀ i ∈ cell.toList, i < vertices.length)
      (positions : ∀ a, vertices[cell.get a]? = some (X.get a))
      (geometry : Element.ofVertices cell X.toList properties = .error .degenerateGeometry) :
      CellFault vertices properties cell .degenerateGeometry

namespace Builder

section

variable {vertices : List (Vec3 α)} {offset first : Nat} {properties : Properties α}
  {cell : Vector Nat S.nodeCount} {cells : List (Vector Nat S.nodeCount)}

/-- The element on a cell with indices in order is made from the vertices of the cell. -/
theorem elementOfCell_eq {X : Vector (Vec3 α) S.nodeCount} (hDistinct : cell.toList.Nodup)
    (hLt : ∀ i ∈ cell.toList, i < vertices.length)
    (hX : ∀ a, vertices[cell.get a]? = some (X.get a)) :
    elementOfCell vertices.toArray offset properties cell =
      Element.ofVertices (cell.map (offset + ·)) X.toList properties := by
  have hNodes : validateNodes cell.toList S.nodeCount vertices.toArray.size = .ok () :=
    validateNodes_eq_ok_iff.mpr ⟨cell.length_toList, hDistinct, by simpa using hLt⟩
  show (do
    validateNodes cell.toList S.nodeCount vertices.toArray.size
    Element.ofVertices (cell.map (offset + ·))
      (cell.toList.filterMap fun v => vertices.toArray[v]?) properties) = _
  rw [hNodes, filterMap_vertices (X := X) (by simpa using hX)]
  rfl

/-- Whether there is an element on a cell does not depend on the nodes before. -/
theorem elementOfCell_isOk_iff :
    (∃ e, elementOfCell vertices.toArray offset properties cell = .ok e) ↔
      CellAccepted vertices properties cell := by
  constructor
  · rintro ⟨e, he⟩
    obtain ⟨hDistinct, hLt, X, hX, hMade⟩ := ofVertices_of_elementOfCell he
    replace hMade : Element.ofVertices (cell.map (offset + ·)) X.toList properties = .ok e := hMade
    rw [Element.ofVertices_nodes cell] at hMade
    obtain ⟨e', hMade, _⟩ := map_eq_ok_iff.mp hMade
    exact ⟨hDistinct, by simpa using hLt, X, fun a => by rw [← hX a, List.getElem?_toArray], e',
      hMade⟩
  · intro h
    obtain ⟨X, hX, e, hMade⟩ := h.made
    rw [elementOfCell_eq h.distinct h.lt hX, Element.ofVertices_nodes cell, hMade]
    exact ⟨_, rfl⟩

/-- A cell without an element is rejected for its first fault. -/
theorem elementOfCell_eq_error {reason : ElementError}
    (h : elementOfCell vertices.toArray offset properties cell = .error reason) :
    CellFault vertices properties cell reason := by
  by_cases hNodes : cell.toList.Nodup ∧ ∀ i ∈ cell.toList, i < vertices.length
  · obtain ⟨hDistinct, hLt⟩ := hNodes
    have hSize : ∀ i ∈ cell.toList, i < vertices.toArray.size := by simpa using hLt
    obtain ⟨X, hX⟩ := exists_vertices hSize
    simp only [List.getElem?_toArray] at hX
    rw [elementOfCell_eq hDistinct hLt hX, Element.ofVertices_nodes cell, map_eq_error_iff] at h
    obtain rfl := Element.ofVertices_eq_error h
    exact .degenerate hDistinct hLt hX h
  · rcases bind_eq_error_iff.mp h with hCheck | ⟨_, hCheck, _⟩
    · replace hCheck : validateNodes cell.toList S.nodeCount vertices.toArray.size =
          .error reason := hCheck
      rw [validateNodes, if_neg (not_not.mpr cell.length_toList), List.size_toArray] at hCheck
      obtain ⟨before, i, after, hSplit, hBefore, hReason⟩ := checkNodes_eq_error hCheck
      obtain ⟨hDistinct, hLt⟩ := checkNodes_eq_ok_iff.mp hBefore
      replace hLt (j : Nat) (hj : j ∈ before) : j < vertices.length := (hLt j hj).1
      rcases hReason with ⟨hOutside, rfl⟩ | ⟨hMem, rfl⟩
      · exact .outOfBounds hSplit hDistinct hLt hOutside
      · exact .repeated hSplit hDistinct hLt (hMem.resolve_left List.not_mem_nil)
    · obtain ⟨_, hDistinct, hLt⟩ := validateNodes_eq_ok_iff.mp hCheck
      exact absurd ⟨hDistinct, by simpa using hLt⟩ hNodes

/-- Cells are rejected for the first one without an element. -/
theorem elementsOfCells_eq_error {err : ModelError}
    (h : elementsOfCells vertices.toArray offset properties first cells = .error err) :
    ∃ before cell after reason, cells = before ++ cell :: after ∧
      (∀ c ∈ before, ∃ e, elementOfCell vertices.toArray offset properties c = .ok e) ∧
      elementOfCell vertices.toArray offset properties cell = .error reason ∧
      err = .invalidElement (first + before.length) reason := by
  induction cells generalizing first with
  | nil => cases h
  | cons cell cells ih =>
      rw [elementsOfCells] at h
      cases hCell : elementOfCell vertices.toArray offset properties cell with
      | error reason =>
          rw [hCell] at h
          cases h
          exact ⟨[], cell, cells, reason, rfl, List.forall_mem_nil _, hCell, rfl⟩
      | ok e =>
          rw [hCell] at h
          rcases bind_eq_error_iff.mp h with hRest | ⟨_, _, h⟩
          · obtain ⟨before, faulty, after, reason, rfl, hBefore, hFaulty, rfl⟩ := ih hRest
            refine ⟨cell :: before, faulty, after, reason, rfl, ?_, hFaulty, ?_⟩
            · exact List.forall_mem_cons.mpr ⟨⟨e, hCell⟩, hBefore⟩
            · rw [List.length_cons, Nat.add_right_comm, Nat.add_assoc]
          · cases h

/-- Accepted cells have an element each. -/
theorem exists_elementsOfCells (offset first : Nat)
    (h : ∀ cell ∈ cells, CellAccepted vertices properties cell) :
    ∃ elements, elementsOfCells vertices.toArray offset properties first cells = .ok elements := by
  cases hCells : elementsOfCells vertices.toArray offset properties first cells with
  | ok elements => exact ⟨elements, rfl⟩
  | error err =>
      obtain ⟨_, cell, _, reason, hSplit, _, hCell, _⟩ := elementsOfCells_eq_error hCells
      obtain ⟨e, he⟩ := elementOfCell_isOk_iff.mpr (h cell (by simp [hSplit]))
      rw [hCell] at he
      cases he

end

/-! ### Adding cells -/

variable {b : Builder α S} {vertices : List (Vec3 α)} {properties : Properties α}
  {cells : List (Vector Nat S.nodeCount)}

/-- Staged vertices are the nodes after those that were there. -/
theorem nodePosition?_stage {k : Nat} {v : Vec3 α} (h : vertices[k]? = some v)
    (elements : List (Element S α)) :
    (b.stage vertices elements).nodePosition? (b.numNodes + k) = some v := by
  rw [nodePosition?_eq, allNodes_stage, ← size_allNodes,
    Array.getElem?_append_right (Nat.le_add_right _ _), Nat.add_sub_cancel_left,
    List.getElem?_toArray, h]

/-- Whether `e` is the element on a cell in a builder in which the vertices of the cell are the
nodes after the first `offset` nodes: it is made from these vertices, with the indices of the cell
counted from there, and finds the vertices at its nodes. -/
def IsElementOn (b : Builder α S) (vertices : List (Vec3 α)) (offset : Nat)
    (properties : Properties α) (cell : Vector Nat S.nodeCount) (e : Element S α) : Prop :=
  ∃ X : Vector (Vec3 α) S.nodeCount, (∀ a, vertices[cell.get a]? = some (X.get a)) ∧
    Element.ofVertices (cell.map (offset + ·)) X.toList properties = .ok e ∧
    ∀ a, e.nodes.get a = offset + cell.get a ∧ b.nodePosition? (e.nodes.get a) = some (X.get a)

/-- An element that was made on a cell is on it as soon as the vertices are staged. -/
theorem isElementOn_stage {cell : Vector Nat S.nodeCount} {e : Element S α}
    (h : elementOfCell vertices.toArray b.numNodes properties cell = .ok e)
    (elements : List (Element S α)) :
    (b.stage vertices elements).IsElementOn vertices b.numNodes properties cell e := by
  obtain ⟨_, _, X, hX, hMade⟩ := ofVertices_of_elementOfCell h
  obtain ⟨hNodes, _⟩ := Element.ofVertices_eq_ok hMade
  replace hX (a : Fin S.nodeCount) : vertices[cell.get a]? = some (X.get a) := by
    rw [← hX a, List.getElem?_toArray]
  refine ⟨X, hX, hMade, fun a => ?_⟩
  have hNode : e.nodes.get a = b.numNodes + cell.get a := by rw [hNodes, vector_get_map]
  rw [hNode]
  exact ⟨rfl, nodePosition?_stage (hX a) elements⟩

/-- Accepted cells are added as their vertices and then their elements are. -/
theorem addCells_of_accepted (hOpen : b.built = false)
    (h : ∀ cell ∈ cells, CellAccepted vertices properties cell) :
    ∃ (b₁ b₂ : Builder α S) (elements : List (Element S α)),
      b.addNodes vertices = (b₁, .ok (b.numNodes, b.numNodes + vertices.length)) ∧
      b₁.addElements elements = (b₂, .ok (b.numElements, b.numElements + cells.length)) ∧
      b.addCells vertices cells properties =
        (b₂, .ok (b.numElements, b.numElements + cells.length)) ∧
      List.Forall₂ (b₂.IsElementOn vertices b.numNodes properties) cells elements := by
  obtain ⟨elements, hElements⟩ := exists_elementsOfCells b.numNodes b.numElements h
  have hMap := elementsOfCells_eq_ok hElements
  have hLength : elements.length = cells.length := by
    simpa using (congrArg List.length hMap).symm
  have hAdd := addCells_of_elements hOpen hElements
  rw [hLength] at hAdd
  have hNodes := addNodes_eq hOpen vertices
  refine ⟨b.stage vertices [], b.stage vertices elements, elements, hNodes, ?_, hAdd, ?_⟩
  · rw [← hAdd, addCells, if_neg (hOpen ▸ Bool.false_ne_true), hElements, hNodes]
  · have hPairs : List.Forall₂ (fun cell e =>
        elementOfCell vertices.toArray b.numNodes properties cell = .ok e) cells elements := by
      rw [← List.forall₂_map_right_iff, ← List.forall₂_map_left_iff, hMap]
      exact List.forall₂_refl _
    exact hPairs.imp fun _ _ hCell => isElementOn_stage hCell elements

/-- Cells of which one is not accepted are rejected for the first such cell and its first fault. -/
theorem addCells_of_not_accepted (hOpen : b.built = false)
    (h : ¬ ∀ cell ∈ cells, CellAccepted vertices properties cell) :
    ∃ before cell after reason, cells = before ++ cell :: after ∧
      (∀ c ∈ before, CellAccepted vertices properties c) ∧
      ¬ CellAccepted vertices properties cell ∧ CellFault vertices properties cell reason ∧
      b.addCells vertices cells properties =
        (b, .error (.invalidElement (b.numElements + before.length) reason)) := by
  cases hCells : elementsOfCells vertices.toArray b.numNodes properties b.numElements cells with
  | ok elements =>
      refine absurd (fun cell hCell => ?_) h
      have hMem : elementOfCell vertices.toArray b.numNodes properties cell ∈
          elements.map Except.ok := by
        rw [← elementsOfCells_eq_ok hCells]
        exact List.mem_map_of_mem hCell
      obtain ⟨e, _, he⟩ := List.mem_map.mp hMem
      exact elementOfCell_isOk_iff.mp ⟨e, he.symm⟩
  | error err =>
      obtain ⟨before, cell, after, reason, hSplit, hBefore, hCell, rfl⟩ :=
        elementsOfCells_eq_error hCells
      refine ⟨before, cell, after, reason, hSplit,
        fun c hc => elementOfCell_isOk_iff.mp (hBefore c hc), fun hAccepted => ?_,
        elementOfCell_eq_error hCell, ?_⟩
      · obtain ⟨e, he⟩ := elementOfCell_isOk_iff.mpr hAccepted
        rw [hCell] at he
        cases he
      · rw [addCells, if_neg (hOpen ▸ Bool.false_ne_true), hCells]

/-- **Adding cells.** For any vertices, cells and properties: a builder that is used up rejects
them. Otherwise cells are added exactly if every one is accepted by itself, and the outcome is that
of adding the vertices as nodes and then the elements on the cells; neither of the two additions
fails, and the answer is the range of the elements. If a cell is not accepted, the first one that is
not is reported, by the number that its element would have had and by its first fault, and the
builder stays as it was. -/
theorem addCells_elementwise (b : Builder α S) (vertices : List (Vec3 α))
    (cells : List (Vector Nat S.nodeCount)) (properties : Properties α) :
    (b.built = true → b.addCells vertices cells properties = (b, .error .builderConsumed)) ∧
    (b.built = false →
      ((∃ range, (b.addCells vertices cells properties).2 = .ok range) ↔
        ∀ cell ∈ cells, CellAccepted vertices properties cell) ∧
      ((∀ cell ∈ cells, CellAccepted vertices properties cell) →
        ∃ (b₁ b₂ : Builder α S) (elements : List (Element S α)),
          b.addNodes vertices = (b₁, .ok (b.numNodes, b.numNodes + vertices.length)) ∧
          b₁.addElements elements = (b₂, .ok (b.numElements, b.numElements + cells.length)) ∧
          b.addCells vertices cells properties =
            (b₂, .ok (b.numElements, b.numElements + cells.length)) ∧
          List.Forall₂ (b₂.IsElementOn vertices b.numNodes properties) cells elements) ∧
      ((¬ ∀ cell ∈ cells, CellAccepted vertices properties cell) →
        ∃ before cell after reason, cells = before ++ cell :: after ∧
          (∀ c ∈ before, CellAccepted vertices properties c) ∧
          ¬ CellAccepted vertices properties cell ∧ CellFault vertices properties cell reason ∧
          b.addCells vertices cells properties =
            (b, .error (.invalidElement (b.numElements + before.length) reason)))) := by
  constructor
  · intro hBuilt
    rw [addCells, if_pos hBuilt]
  · intro hOpen
    refine ⟨⟨?_, ?_⟩, addCells_of_accepted hOpen, addCells_of_not_accepted hOpen⟩
    · rintro ⟨range, hRange⟩
      by_contra hNot
      obtain ⟨_, _, _, _, _, _, _, _, hResult⟩ := addCells_of_not_accepted hOpen hNot
      rw [hResult] at hRange
      cases hRange
    · intro hAccepted
      obtain ⟨_, _, _, _, _, hResult, _⟩ := addCells_of_accepted hOpen hAccepted
      exact ⟨_, congrArg Prod.snd hResult⟩

/-- Two tetrahedra are added to a model with one, after a node that is staged already. A second cell
with a repeated index is reported as element number two, and nothing is staged. -/
theorem addCells_elementwise_corner :
    let b : Builder ℚ Shape.tet4 := ((ofModel Workspace.cornerSession.1).addNode ⟨5, 5, 5⟩).1
    let vertices : List (Vec3 ℚ) := [⟨0, 0, 0⟩, ⟨1, 0, 0⟩, ⟨0, 1, 0⟩, ⟨0, 0, 1⟩, ⟨1, 1, 1⟩]
    let properties : Properties ℚ :=
      { law := .stVK, lame := ⟨1, 2⟩, density := 1, damping := ⟨1, 2⟩, lumping := .rowSum }
    (∃ b₁ b₂ elements, b.addNodes vertices = (b₁, .ok (5, 10)) ∧
      b₁.addElements elements = (b₂, .ok (1, 3)) ∧
      b.addCells vertices [#v[0, 1, 2, 3], #v[1, 2, 3, 4]] properties = (b₂, .ok (1, 3))) ∧
    b.addCells vertices [#v[0, 1, 2, 3], #v[1, 2, 2, 9]] properties =
      (b, .error (.invalidElement 2 (.repeatedNode 2))) := by
  intro b vertices properties
  have hOpen : b.built = false := rfl
  constructor
  · obtain ⟨_, hOutcome⟩ := addCells_elementwise b vertices
      [#v[0, 1, 2, 3], #v[1, 2, 3, 4]] properties
    obtain ⟨_, hAccepted, _⟩ := hOutcome hOpen
    have hCells : ∀ cell ∈ [#v[0, 1, 2, 3], #v[1, 2, 3, 4]],
        (elementOfCell (κ := Shape.tet4) vertices.toArray 0 properties cell).isOk = true := by
      decide +kernel
    obtain ⟨b₁, b₂, elements, hNodes, hElements, hResult, _⟩ :=
      hAccepted fun cell hCell =>
        elementOfCell_isOk_iff.mp (exists_eq_ok_of_isOk (hCells cell hCell))
    have hNodeCount : b.numNodes = 5 := by decide +kernel
    have hElementCount : b.numElements = 1 := by decide +kernel
    rw [hNodeCount] at hNodes
    rw [hElementCount] at hElements hResult
    exact ⟨b₁, b₂, elements, hNodes, hElements, hResult⟩
  · obtain ⟨_, hOutcome⟩ := addCells_elementwise b vertices
      [#v[0, 1, 2, 3], #v[1, 2, 2, 9]] properties
    obtain ⟨_, _, hNotAccepted⟩ := hOutcome hOpen
    have hRepeated : ¬ ∀ cell ∈ [#v[0, 1, 2, 3], #v[1, 2, 2, 9]],
        CellAccepted (S := .tet4) vertices properties cell := by
      intro hAll
      have hCell := hAll #v[1, 2, 2, 9] (by simp)
      exact absurd hCell.distinct (by decide)
    obtain ⟨_, _, _, _, _, _, _, _, hResult⟩ := hNotAccepted hRepeated
    have hReply : (b.addCells vertices [#v[0, 1, 2, 3], #v[1, 2, 2, 9]] properties).2 =
        .error (.invalidElement 2 (.repeatedNode 2)) := by
      decide +kernel
    exact Prod.ext (by rw [hResult]) hReply

end Builder

end Elastodynamics
