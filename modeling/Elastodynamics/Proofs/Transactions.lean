import Elastodynamics.Proofs.Model.Cells
import Elastodynamics.Proofs.Workspace.Reachable
/-!
Builder transactions. A command is either accepted as a whole, or rejected and without effect. The
numbers in the answers to accepted commands are promises: they continue the numbers of the model,
and what they number is found there at every later time, before the build among what is staged and
after it in the model.
-/
namespace Elastodynamics

variable {α : Type} [ElementFamily α] {κ : Kind α}

namespace Command

/-- The nodes that a command brings along. -/
def newNodes : Command α κ → List (Vec3 α)
  | .addNode position => [position]
  | .addNodes positions => positions
  | .addCells vertices _ _ => vertices
  | .addElement _ | .addElements _ | .build => []

/-- The elements that a command brings along, if there are `offset` nodes before it. -/
def newElements (offset : Nat) : Command α κ → List (kind κ).Element
  | .addElement e => [e]
  | .addElements elements => elements
  | .addCells vertices cells properties =>
    (cells.map (Builder.elementOfCell vertices.toArray offset properties)).filterMap
      Except.toOption
  | .addNode _ | .addNodes _ | .build => []

/-- The answer that numbers what a command brings along, if there are so many nodes and elements
before it. -/
def receipt (numNodes numElements : Nat) : Command α κ → Reply
  | .addNode _ => .index numNodes
  | .addNodes positions => .range numNodes (numNodes + positions.length)
  | .addElement _ => .index numElements
  | .addElements elements => .range numElements (numElements + elements.length)
  | .addCells _ cells _ => .range numElements (numElements + cells.length)
  | .build => .done

/-- The nodes that commands bring along, in order. -/
def nodesOf (commands : List (Command α κ)) : List (Vec3 α) :=
  commands.flatMap newNodes

/-- The elements that commands bring along, in order, if there are `offset` nodes before them. -/
def elementsOf (offset : Nat) : List (Command α κ) → List (kind κ).Element
  | [] => []
  | c :: commands => c.newElements offset ++ elementsOf (offset + c.newNodes.length) commands

end Command

namespace Builder

/-- The nodes of the model, followed by those that are staged. -/
def allNodes (b : Builder α κ) : Array (Vec3 α) := b.model.referencePositions ++ b.pendingNodes

/-- The elements of the model, followed by those that are staged. -/
def allElements (b : Builder α κ) : Array (kind κ).Element := b.model.elements ++ b.pendingElements

/-- The commands that a builder accepts, in order. -/
def accepted (b : Builder α κ) (ids : IdSupply) : List (Command α κ) → List (Command α κ)
  | [] => []
  | c :: commands =>
    let rest := (b.execute ids c).1.accepted (b.execute ids c).2.1 commands
    match (b.execute ids c).2.2 with
    | .ok _ => c :: rest
    | .error _ => rest

variable {b : Builder α κ} {ids : IdSupply} {c : Command α κ}

theorem size_allNodes (b : Builder α κ) : b.allNodes.size = b.numNodes :=
  Array.size_append

theorem size_allElements (b : Builder α κ) : b.allElements.size = b.numElements :=
  Array.size_append

/-- The boundary between the nodes of the model and the staged ones does not matter. -/
theorem nodePosition?_eq (b : Builder α κ) (node : Nat) :
    b.nodePosition? node = b.allNodes[node]? :=
  Array.getElem?_append.symm

theorem allNodes_stage (b : Builder α κ) (nodes : List (Vec3 α))
    (elements : List (kind κ).Element) :
    (b.stage nodes elements).allNodes = b.allNodes ++ nodes.toArray := by
  simp [allNodes, stage]

theorem allElements_stage (b : Builder α κ) (nodes : List (Vec3 α))
    (elements : List (kind κ).Element) :
    (b.stage nodes elements).allElements = b.allElements ++ elements.toArray := by
  simp [allElements, stage]

/-- A builder that has not been built is known by its model and all nodes and elements. -/
theorem eq_of_all {m : TypedModel α κ} {nodes : Array (Vec3 α)} {elements : Array (kind κ).Element}
    (hModel : b.model = m) (hOpen : b.built = false)
    (hNodes : b.allNodes = m.referencePositions ++ nodes)
    (hElements : b.allElements = m.elements ++ elements) : b = ⟨m, nodes, elements, false⟩ := by
  obtain ⟨model, pendingNodes, pendingElements, built⟩ := b
  subst hModel hOpen
  obtain rfl := (Array.append_right_inj _).mp hNodes
  obtain rfl := (Array.append_right_inj _).mp hElements
  rfl

/-! ### One command -/

/-- Elements are all staged, or none of them is and the builder stays as it was. -/
theorem addElements_cases (hOpen : b.built = false) (elements : List (kind κ).Element) :
    (∃ err, b.addElements elements = (b, .error err)) ∨
      b.addElements elements =
        (b.stage [] elements, .ok (b.numElements, b.numElements + elements.length)) := by
  rw [addElements, if_neg (hOpen ▸ Bool.false_ne_true)]
  cases checkElements b.numNodes b.numElements elements with
  | error err => exact .inl ⟨err, rfl⟩
  | ok u =>
      right
      simp [stage, numElements, Nat.add_assoc]

/-- Vertices and elements of cells are all staged, or none of them is and the builder stays as it
was. -/
theorem addCells_cases (hOpen : b.built = false) (vertices : List (Vec3 α))
    (cells : List (Vector Nat (kind κ).nodeCount)) (properties : (kind κ).Properties) :
    let elements := Command.newElements b.numNodes (.addCells vertices cells properties)
    (∃ err, b.addCells vertices cells properties = (b, .error err)) ∨
      b.addCells vertices cells properties =
        (b.stage vertices elements, .ok (b.numElements, b.numElements + cells.length)) ∧
      cells.map (elementOfCell vertices.toArray b.numNodes properties) = elements.map .ok := by
  intro elements
  cases hCells : elementsOfCells vertices.toArray b.numNodes properties b.numElements cells with
  | error err =>
      left
      rw [addCells, if_neg (hOpen ▸ Bool.false_ne_true), hCells]
      exact ⟨err, rfl⟩
  | ok made =>
      right
      have hMap := elementsOfCells_eq_ok hCells
      have hNew : elements = made := by
        show (cells.map _).filterMap Except.toOption = made
        rw [hMap, List.filterMap_map]
        exact List.filterMap_some
      have hCount : cells.length = made.length := by simpa using congrArg List.length hMap
      rw [hNew, hCount]
      exact ⟨addCells_of_elements hOpen hCells, hMap⟩

/-- A command other than a build is accepted as a whole, or rejected and without effect. -/
theorem execute_cases (hOpen : b.built = false) (ids : IdSupply) (hc : c ≠ .build) :
    (∃ err, b.execute ids c = (b, ids, .error err)) ∨
      b.execute ids c = (b.stage c.newNodes (c.newElements b.numNodes), ids,
        .ok (c.receipt b.numNodes b.numElements)) := by
  cases c with
  | addNode position =>
      right
      simp [execute, addNode, hOpen, stage, Command.newNodes, Command.newElements,
        Command.receipt, Except.map]
  | addNodes positions =>
      right
      rw [execute, addNodes_eq hOpen]
      rfl
  | addElement e =>
      have hSingle : b.addElement e =
          ((b.addElements [e]).1, (b.addElements [e]).2.map Prod.fst) :=
        Prod.ext (addElement_eq_addElements b e) (addElement_reply b e)
      rcases addElements_cases hOpen [e] with ⟨err, hAdd⟩ | hAdd
      · exact .inl ⟨err, by rw [execute, hSingle, hAdd]; rfl⟩
      · right
        rw [execute, hSingle, hAdd]
        rfl
  | addElements elements =>
      rcases addElements_cases hOpen elements with ⟨err, hAdd⟩ | hAdd
      · exact .inl ⟨err, by rw [execute, hAdd]; rfl⟩
      · right
        rw [execute, hAdd]
        rfl
  | addCells vertices cells properties =>
      rcases addCells_cases hOpen vertices cells properties with ⟨err, hAdd⟩ | ⟨hAdd, _⟩
      · exact .inl ⟨err, by rw [execute, hAdd]; rfl⟩
      · right
        rw [execute, hAdd]
        rfl
  | build => exact absurd rfl hc

/-- A builder that accepts a command has not been built. -/
theorem open_of_execute {r : Reply} (h : (b.execute ids c).2.2 = .ok r) : b.built = false := by
  by_contra hBuilt
  rw [execute_of_built (Bool.not_eq_false _ ▸ hBuilt)] at h
  cases h

/-- Accepted cells have an element each. -/
theorem elements_of_accepted {vertices : List (Vec3 α)}
    {cells : List (Vector Nat (kind κ).nodeCount)} {properties : (kind κ).Properties} {r : Reply}
    (h : (b.execute ids (.addCells vertices cells properties)).2.2 = .ok r) :
    cells.map (elementOfCell vertices.toArray b.numNodes properties) =
      (Command.newElements b.numNodes (.addCells vertices cells properties)).map .ok := by
  rcases addCells_cases (open_of_execute h) vertices cells properties with
    ⟨err, hAdd⟩ | ⟨_, hElements⟩
  · rw [execute, hAdd] at h
    cases h
  · exact hElements

/-- What an accepted command does: it appends what it brings along to all nodes and elements, and
answers with the next numbers. A build only moves the boundary between what is in the model and what
is staged. -/
theorem execute_of_ok {r : Reply} (h : (b.execute ids c).2.2 = .ok r) :
    r = c.receipt b.numNodes b.numElements ∧
      (b.execute ids c).1.allNodes = b.allNodes ++ c.newNodes.toArray ∧
      (b.execute ids c).1.allElements = b.allElements ++ (c.newElements b.numNodes).toArray := by
  have hOpen := open_of_execute h
  by_cases hBuild : c = .build
  · subst hBuild
    obtain ⟨hElements, hPositions, hNoElements, hNoNodes⟩ := build_of_open hOpen ids
    obtain ⟨_, _, hDone⟩ := map_eq_ok_iff.mp h
    constructor
    · exact hDone.symm
    · constructor
      · show (b.build ids).1.allNodes = _
        rw [allNodes, hPositions, hNoNodes, Command.newNodes]
        simp [allNodes]
      · show (b.build ids).1.allElements = _
        rw [allElements, hElements, hNoElements, Command.newElements]
        simp [allElements]
  · rcases execute_cases hOpen ids hBuild with ⟨err, hResult⟩ | hResult
    · rw [hResult] at h
      cases h
    · rw [hResult] at h ⊢
      cases h
      exact ⟨rfl, allNodes_stage _ _ _, allElements_stage _ _ _⟩

/-! ### Sessions -/

/-- What holds of a builder throughout a session with a well-formed model. -/
structure Sound (b : Builder α κ) : Prop where
  /-- Until the build the model is the one of the beginning. -/
  model : b.built = false → b.model.WellFormed
  /-- Staged elements only use nodes that will exist, so a build does not fail. -/
  fits : b.built = false → ∀ e ∈ b.pendingElements, (kind κ).Fits e b.numNodes
  /-- Nothing remains staged in a builder that is used up. -/
  drained : b.built = true → b.pendingNodes = #[] ∧ b.pendingElements = #[]

theorem sound_ofModel {m : TypedModel α κ} (hm : m.WellFormed) : (ofModel m).Sound where
  model _ := hm
  fits _ := by simp [ofModel]
  drained := nofun

/-- In a builder that is used up, all nodes and elements are those of the model. -/
theorem Sound.all_of_built (hb : b.Sound) (hBuilt : b.built = true) :
    b.allNodes = b.model.referencePositions ∧ b.allElements = b.model.elements := by
  obtain ⟨hNoNodes, hNoElements⟩ := hb.drained hBuilt
  rw [allNodes, allElements, hNoNodes, hNoElements]
  exact ⟨Array.append_empty, Array.append_empty⟩

/-- The first build is accepted. -/
theorem Sound.build (hb : b.Sound) (hOpen : b.built = false) (ids : IdSupply) :
    ∃ b', b.execute ids .build = (b', ids.fresh.2, .ok .done) ∧ b'.built = true ∧
      b'.pendingNodes = #[] ∧ b'.pendingElements = #[] := by
  obtain ⟨P, hExtend, _⟩ := TypedModel.extend_of_fits (hb.model hOpen) b.pendingNodes
    (hb.fits hOpen) ids
  rw [execute, Builder.build, if_neg (hOpen ▸ Bool.false_ne_true), hExtend]
  exact ⟨_, rfl, rfl, rfl, rfl⟩

/-- A rejected command has no effect, be it a build or not. -/
theorem Sound.execute_of_error (hb : b.Sound) {err : ModelError}
    (h : (b.execute ids c).2.2 = .error err) : b.execute ids c = (b, ids, .error err) := by
  cases hBuilt : b.built with
  | true =>
      rw [execute_of_built hBuilt] at h ⊢
      rw [← h]
  | false =>
      by_cases hBuild : c = .build
      · subst hBuild
        obtain ⟨b', hResult, _⟩ := hb.build hBuilt ids
        rw [hResult] at h
        cases h
      · rcases execute_cases hBuilt ids hBuild with ⟨err', hResult⟩ | hResult
        · rw [hResult] at h ⊢
          rw [← h]
        · rw [hResult] at h
          cases h

theorem Sound.execute (hb : b.Sound) (ids : IdSupply) (c : Command α κ) :
    (b.execute ids c).1.Sound := by
  cases hBuilt : b.built with
  | true =>
      rw [execute_of_built hBuilt]
      exact hb
  | false =>
      by_cases hBuild : c = .build
      · subst hBuild
        obtain ⟨b', hResult, hDone, hDrained⟩ := hb.build hBuilt ids
        rw [hResult]
        have hStill : ¬ b'.built = false := hDone ▸ nofun
        exact ⟨fun h => absurd h hStill, fun h => absurd h hStill, fun _ => hDrained⟩
      · obtain ⟨_, nodes, elements, hResult, hFits, _⟩ := execute_of_open hBuilt ids hBuild
        rw [hResult]
        refine ⟨fun _ => hb.model hBuilt, fun _ e he => ?_, fun h => ?_⟩
        · rw [numNodes_stage]
          rcases Array.mem_append.mp he with he | he
          · exact (hb.fits hBuilt e he).mono (Nat.le_add_right _ _)
          · exact hFits e (List.mem_toArray.mp he)
        · exact absurd hBuilt (Bool.not_eq_false _ ▸ h)

theorem run_cons (b : Builder α κ) (ids : IdSupply) (c : Command α κ)
    (commands : List (Command α κ)) :
    b.run ids (c :: commands) = (b.execute ids c).1.run (b.execute ids c).2.1 commands :=
  rfl

theorem run_append (b : Builder α κ) (ids : IdSupply) (commands commands' : List (Command α κ)) :
    b.run ids (commands ++ commands') =
      (b.run ids commands).1.run (b.run ids commands).2 commands' := by
  induction commands generalizing b ids with
  | nil => rfl
  | cons c commands ih => exact ih _ _

theorem Sound.run (hb : b.Sound) (ids : IdSupply) (commands : List (Command α κ)) :
    (b.run ids commands).1.Sound := by
  induction commands generalizing b ids with
  | nil => exact hb
  | cons c commands ih => exact ih (hb.execute ids c) _

/-- A session appends what its accepted commands bring along, in order. -/
theorem Sound.all_run (hb : b.Sound) (ids : IdSupply) (commands : List (Command α κ)) :
    (b.run ids commands).1.allNodes =
        b.allNodes ++ (Command.nodesOf (b.accepted ids commands)).toArray ∧
      (b.run ids commands).1.allElements = b.allElements ++
        (Command.elementsOf b.numNodes (b.accepted ids commands)).toArray := by
  induction commands generalizing b ids with
  | nil => simp [Builder.run, accepted, Command.nodesOf, Command.elementsOf]
  | cons c commands ih =>
      rw [run_cons, accepted]
      cases hReply : (b.execute ids c).2.2 with
      | error err =>
          rw [hb.execute_of_error hReply]
          exact ih hb ids
      | ok r =>
          obtain ⟨_, hNodes, hElements⟩ := execute_of_ok hReply
          obtain ⟨hRunNodes, hRunElements⟩ := ih (hb.execute ids c) (b.execute ids c).2.1
          have hCount : (b.execute ids c).1.numNodes = b.numNodes + c.newNodes.length := by
            simp [← size_allNodes, hNodes]
          rw [hRunNodes, hRunElements, hNodes, hElements, hCount]
          simp [Command.nodesOf, Command.elementsOf]

theorem run_of_built (hBuilt : b.built = true) (ids : IdSupply) (commands : List (Command α κ)) :
    b.run ids commands = (b, ids) := by
  induction commands with
  | nil => rfl
  | cons c commands ih => rw [run_cons, execute_of_built hBuilt, ih]

/-- Before the first build nothing but what is staged changes. -/
theorem run_of_not_mem (hOpen : b.built = false) (ids : IdSupply) {commands : List (Command α κ)}
    (hBuild : .build ∉ commands) :
    (b.run ids commands).1.built = false ∧ (b.run ids commands).1.model = b.model ∧
      (b.run ids commands).2 = ids := by
  induction commands generalizing b with
  | nil => exact ⟨hOpen, rfl, rfl⟩
  | cons c commands ih =>
      obtain ⟨hHead, hTail⟩ := not_or.mp (mt List.mem_cons.mpr hBuild)
      obtain ⟨hIds, nodes, elements, hResult, _⟩ := execute_of_open hOpen ids (Ne.symm hHead)
      rw [run_cons, hIds, hResult]
      exact ih hOpen hTail

/-- The first build uses a builder up. -/
theorem Sound.built_run_of_mem (hb : b.Sound) (ids : IdSupply) {commands : List (Command α κ)}
    (hBuild : .build ∈ commands) : (b.run ids commands).1.built = true := by
  induction commands generalizing b ids with
  | nil => cases hBuild
  | cons c commands ih =>
      cases hBuilt : b.built with
      | true =>
          rw [run_of_built hBuilt]
          exact hBuilt
      | false =>
          rw [run_cons]
          rcases List.mem_cons.mp hBuild with rfl | hTail
          · obtain ⟨b', hResult, hDone, _⟩ := hb.build hBuilt ids
            rw [hResult, run_of_built hDone]
            exact hDone
          · exact ih (hb.execute ids c) _ hTail

/-- What an accepted command numbers is found under these numbers at every later time. -/
theorem Sound.kept (hb : b.Sound) {r : Reply} (h : (b.execute ids c).2.2 = .ok r)
    (after : List (Command α κ)) :
    (∀ k X, c.newNodes[k]? = some X →
        (b.run ids (c :: after)).1.allNodes[b.numNodes + k]? = some X) ∧
      ∀ k e, (c.newElements b.numNodes)[k]? = some e →
        (b.run ids (c :: after)).1.allElements[b.numElements + k]? = some e := by
  obtain ⟨_, hNodes, hElements⟩ := execute_of_ok h
  obtain ⟨hRunNodes, hRunElements⟩ := (hb.execute ids c).all_run (b.execute ids c).2.1 after
  have hFound {β : Type} (xs zs : Array β) {ys : List β} {k : Nat} {y : β}
      (hy : ys[k]? = some y) : (xs ++ ys.toArray ++ zs)[xs.size + k]? = some y := by
    obtain ⟨hLt, _⟩ := List.getElem?_eq_some_iff.mp hy
    rw [Array.append_assoc, Array.getElem?_append_right (Nat.le_add_right _ _),
      Nat.add_sub_cancel_left, Array.getElem?_append_left hLt,
      List.getElem?_toArray, hy]
  rw [run_cons, hRunNodes, hRunElements, hNodes, hElements, ← size_allNodes, ← size_allElements]
  exact ⟨fun k X hX => hFound _ _ hX, fun k e he => hFound _ _ he⟩

end Builder

namespace TypedModel

variable {m : TypedModel α κ}

/-- Builder transactions. Let `before` be the commands so far to a new builder of a model that a
program has made, accepted or not. Until the first build the model is as it was and everything
accepted is staged; the first build is accepted, and after it the model has the old nodes and
elements and then all accepted ones, in order. A rejected command has no effect. The answer to an
accepted command continues the numbers of all nodes and elements before it, and what it numbers is
found there after any further commands. -/
theorem builder_transactions [Scalar α] {W : Workspace α} (hW : W.Reachable)
    (hm : .typed m ∈ W.models) (ids : IdSupply) (before : List (Command α κ)) :
    let b := ((Builder.ofModel m).run ids before).1
    let ids' := ((Builder.ofModel m).run ids before).2
    let nodes := Command.nodesOf ((Builder.ofModel m).accepted ids before)
    let elements := Command.elementsOf m.referencePositions.size
      ((Builder.ofModel m).accepted ids before)
    (.build ∉ before → b = ⟨m, nodes.toArray, elements.toArray, false⟩ ∧ ids' = ids) ∧
    (.build ∈ before → b.built = true ∧ b.pendingNodes = #[] ∧ b.pendingElements = #[] ∧
      b.model.referencePositions = m.referencePositions ++ nodes.toArray ∧
      b.model.elements = m.elements ++ elements.toArray) ∧
    ∀ c : Command α κ,
      (.build ∈ before → (b.execute ids' c).2.2 = .error .builderConsumed) ∧
      (.build ∉ before → c = .build → (b.execute ids' c).2.2 = .ok .done) ∧
      (∀ err, (b.execute ids' c).2.2 = .error err → b.execute ids' c = (b, ids', .error err)) ∧
      ∀ r, (b.execute ids' c).2.2 = .ok r →
        r = c.receipt (m.referencePositions.size + nodes.length)
          (m.elements.size + elements.length) ∧
        (∀ vertices cells properties, c = .addCells vertices cells properties →
          cells.map (Builder.elementOfCell vertices.toArray
              (m.referencePositions.size + nodes.length) properties) =
            (c.newElements (m.referencePositions.size + nodes.length)).map .ok) ∧
        ∀ after : List (Command α κ),
          let last := ((Builder.ofModel m).run ids (before ++ c :: after)).1
          (∀ k X, c.newNodes[k]? = some X →
            last.nodePosition? (m.referencePositions.size + nodes.length + k) = some X) ∧
          (.build ∈ before ++ c :: after →
            ∀ k e, (c.newElements (m.referencePositions.size + nodes.length))[k]? = some e →
              last.model.elements[m.elements.size + elements.length + k]? = some e) := by
  intro b ids' nodes elements
  have hStart := Builder.sound_ofModel ((hW.sound.wellFormed _ hm).of_typed)
  obtain ⟨hNodes, hElements⟩ := hStart.all_run ids before
  replace hNodes : b.allNodes = m.referencePositions ++ nodes.toArray := hNodes
  replace hElements : b.allElements = m.elements ++ elements.toArray := hElements
  have hb : b.Sound := hStart.run ids before
  have hNumNodes : b.numNodes = m.referencePositions.size + nodes.length := by
    simp [← b.size_allNodes, hNodes]
  have hNumElements : b.numElements = m.elements.size + elements.length := by
    simp [← b.size_allElements, hElements]
  -- without a build the model is still the old one, and the rest is staged
  have hUnbuilt (hBuild : .build ∉ before) :
      b = ⟨m, nodes.toArray, elements.toArray, false⟩ ∧ ids' = ids := by
    obtain ⟨hOpen, hModel, hIds⟩ := Builder.run_of_not_mem (b := .ofModel m) rfl ids hBuild
    exact ⟨Builder.eq_of_all hModel hOpen hNodes hElements, hIds⟩
  have hBuilt (hBuild : .build ∈ before) : b.built = true :=
    hStart.built_run_of_mem ids hBuild
  refine ⟨hUnbuilt, fun hBuild => ?_, fun c => ⟨fun hBuild => ?_, ?_, fun err => ?_, ?_⟩⟩
  · obtain ⟨hNoNodes, hNoElements⟩ := hb.drained (hBuilt hBuild)
    obtain ⟨hAllNodes, hAllElements⟩ := hb.all_of_built (hBuilt hBuild)
    exact ⟨hBuilt hBuild, hNoNodes, hNoElements, hAllNodes.symm.trans hNodes,
      hAllElements.symm.trans hElements⟩
  · rw [Builder.execute_of_built (hBuilt hBuild)]
  · rintro hBuild rfl
    have hOpen : b.built = false := by rw [(hUnbuilt hBuild).1]
    obtain ⟨b', hResult, _⟩ := hb.build hOpen ids'
    rw [hResult]
  · exact hb.execute_of_error
  · intro r hReply
    obtain ⟨hReceipt, _⟩ := Builder.execute_of_ok hReply
    rw [hNumNodes, hNumElements] at hReceipt
    refine ⟨hReceipt, ?_, fun after => ?_⟩
    · rintro vertices cells properties rfl
      rw [← hNumNodes]
      exact Builder.elements_of_accepted hReply
    · intro last
      have hLast : (b.run ids' (c :: after)).1 = last :=
        (congrArg Prod.fst (Builder.run_append _ ids before (c :: after))).symm
      obtain ⟨hKeptNodes, hKeptElements⟩ := hb.kept hReply after
      rw [hLast, hNumNodes] at hKeptNodes hKeptElements
      rw [hNumElements] at hKeptElements
      constructor
      · intro k X hX
        rw [Builder.nodePosition?_eq]
        exact hKeptNodes k X hX
      · intro hBuild k e he
        have hDone : last.built = true := hStart.built_run_of_mem ids hBuild
        obtain ⟨_, hAllElements⟩ :=
          (hStart.run ids (before ++ c :: after)).all_of_built hDone
        exact hAllElements ▸ hKeptElements k e he

/-- A second session with the tetrahedron: two nodes, a cell without volume, which is rejected, and
the element of the first session once more. -/
def staging : List (Command ℚ Shape.tet4) :=
  [.addNodes [⟨5, 5, 5⟩, ⟨6, 6, 6⟩],
   .addCells [⟨0, 0, 0⟩, ⟨1, 0, 0⟩, ⟨0, 1, 0⟩, ⟨1, 1, 0⟩] [.range 4]
    { law := .stVK, lame := ⟨1, 2⟩, density := 1, damping := ⟨1, 2⟩, lumping := .rowSum },
   .addElements Workspace.cornerSession.1.elements.toList]

/-- The next node is promised the number after the two that were accepted, and has it in the
model. -/
theorem builder_transactions_corner :
    let b := (Builder.ofModel Workspace.cornerSession.1).run Workspace.cornerSession.2 staging
    (b.1.execute b.2 (.addNode ⟨7, 7, 7⟩)).2.2 = .ok (.index 6) ∧
      ((Builder.ofModel Workspace.cornerSession.1).run Workspace.cornerSession.2
        (staging ++ [.addNode ⟨7, 7, 7⟩, .build])).1.nodePosition? 6 = some ⟨7, 7, 7⟩ := by
  obtain ⟨_, _, hNext⟩ := builder_transactions (m := Workspace.cornerSession.1)
    Workspace.reachable_corner List.mem_cons_self Workspace.cornerSession.2 staging
  obtain ⟨_, _, _, hAccepted⟩ := hNext (.addNode ⟨7, 7, 7⟩)
  have hReply : (((Builder.ofModel Workspace.cornerSession.1).run Workspace.cornerSession.2
      staging).1.execute ((Builder.ofModel Workspace.cornerSession.1).run
      Workspace.cornerSession.2 staging).2 (.addNode ⟨7, 7, 7⟩)).2.2 = .ok (.index 6) := by
    decide +kernel
  have hCount : Workspace.cornerSession.1.referencePositions.size +
      (Command.nodesOf ((Builder.ofModel Workspace.cornerSession.1).accepted
        Workspace.cornerSession.2 staging)).length = 6 := by
    decide +kernel
  obtain ⟨hReceipt, _, hKept⟩ := hAccepted (.index 6) hReply
  obtain ⟨hNode, _⟩ := hKept [.build]
  rw [hCount] at hNode
  exact ⟨hReply, hNode 0 ⟨7, 7, 7⟩ rfl⟩

end TypedModel

end Elastodynamics
