import Elastodynamics.Proofs.Model.Stored
import Elastodynamics.Proofs.Workspace.Reachable
/-!
What a stored model keeps fits together. Its elements use distinct nodes that exist, its pattern
couples exactly the nodes of common elements, and its system has its nodes and the data of its
present elements. Staged elements fit the nodes that exist by the time of building, so the pattern
of a build is never rejected: sessions keep this, however they end, and it holds of copies as of
originals.
-/
namespace Elastodynamics

open Sparse

variable {α : Type} [Scalar α] [ElementFamily α] {κ : Kind α}

/-! ### One model -/

namespace StoredModel

/-- What holds of a stored model between its sessions. -/
structure Consistent (m : StoredModel α κ) : Prop where
  fits : ∀ e ∈ m.elements, (kind κ).Fits e m.numNodes
  pattern : Pattern.ofElements m.numNodes
    (m.elements.toList.map fun e => ((kind κ).nodes e).toList) = .ok m.pattern
  system : m.stateSystem = m.toModel.system
  slot : m.elementDataSlot = 0

variable {m : StoredModel α κ}

/-- A renewed system is that of the present nodes and elements, whose data is in its first slot. -/
theorem consistent_renewSystem (hFits : ∀ e ∈ m.elements, (kind κ).Fits e m.numNodes)
    (hPattern : Pattern.ofElements m.numNodes
      (m.elements.toList.map fun e => ((kind κ).nodes e).toList) = .ok m.pattern)
    (ids : IdSupply) : (m.renewSystem ids).1.Consistent :=
  ⟨hFits, hPattern, rfl, rfl⟩

theorem consistent_ofConfig (config : Config α) (ids : IdSupply) :
    (ofConfig (κ := κ) config ids).1.Consistent :=
  consistent_renewSystem (m := ⟨#[], #[], .empty 0, config, .ofNodes ids.fresh.1 #[], 0⟩)
    (fun e he => absurd he (Array.not_mem_empty e))
    (TypedModel.wellFormed_ofConfig config ids).pattern ids.fresh.2

/-- The pattern of elements that fit is never rejected. -/
theorem Consistent.ingest (hm : m.Consistent) (nodes : Array (Vec3 α))
    {elements : Array (kind κ).Element}
    (hFits : ∀ e ∈ elements, (kind κ).Fits e (m.numNodes + nodes.size)) (ids : IdSupply) :
    ∃ m', m.ingest nodes elements ids = (m', ids.fresh.2, .ok ()) ∧
      m'.Consistent := by
  have hSize : (m.referencePositions ++ nodes).size = m.numNodes + nodes.size := Array.size_append
  have hAll : ∀ e ∈ m.elements ++ elements,
      (kind κ).Fits e (m.referencePositions ++ nodes).size := by
    intro e he
    rw [hSize]
    rcases Array.mem_append.mp he with he | he
    · exact (hm.fits e he).mono (Nat.le_add_right _ _)
    · exact hFits e he
  obtain ⟨P, hP⟩ := TypedModel.exists_pattern fun e he => (hAll e he).lt
  let extended : StoredModel α κ := { m with
    referencePositions := m.referencePositions ++ nodes
    elements := m.elements ++ elements
    pattern := P }
  refine ⟨(extended.renewSystem ids).1, ?_, consistent_renewSystem (m := extended) hAll hP ids⟩
  simp only [StoredModel.ingest, numNodes, hP]
  rfl

/-- Two nodes have a block exactly if some element has both. -/
theorem Consistent.contains_pattern (hm : m.Consistent) {i j : Nat} :
    m.pattern.contains i j = true ↔
      ∃ e ∈ m.elements, i ∈ ((kind κ).nodes e).toList ∧ j ∈ ((kind κ).nodes e).toList :=
  TypedModel.contains_pattern_iff (m := m.toModel) hm.pattern

theorem Consistent.getElem?_entries (hm : m.Consistent) :
    m.stateSystem.entries[m.elementDataSlot]? =
      some (TypedModel.elementDataEntry m.elements.toList) := by
  rw [hm.system, hm.slot]
  rfl

theorem Consistent.numDofs_stateSystem (hm : m.Consistent) :
    m.stateSystem.numDofs = 3 * m.numNodes := by
  rw [hm.system, System.numDofs, TypedModel.system, Stacked.size_ofNodes]
  rfl

end StoredModel

/-! ### One session -/

namespace StoredBuilder

/-- What holds of a builder: its model is consistent, and what is staged fits. -/
structure Consistent (b : StoredBuilder α κ) : Prop where
  model : b.model.Consistent
  staged : ∀ e ∈ b.pendingElements, (kind κ).Fits e (b.model.numNodes + b.pendingNodes.size)

variable {b : StoredBuilder α κ}

theorem consistent_ofModel {m : StoredModel α κ} (hm : m.Consistent) : (ofModel m).Consistent :=
  ⟨hm, fun e he => absurd he (Array.not_mem_empty e)⟩

/-- The first build of a builder succeeds. -/
theorem Consistent.build (hb : b.Consistent) (hOpen : b.built = false) (ids : IdSupply) :
    ∃ m', b.build ids = (⟨m', #[], #[], true⟩, ids.fresh.2, .ok ()) ∧ m'.Consistent := by
  obtain ⟨m', hIngest, hm'⟩ := hb.model.ingest b.pendingNodes hb.staged ids
  refine ⟨m', ?_, hm'⟩
  rw [StoredBuilder.build, if_neg (hOpen ▸ Bool.false_ne_true), hIngest]

theorem Consistent.execute_build (hb : b.Consistent) (hOpen : b.built = false) (ids : IdSupply) :
    (b.execute ids .build).2.2 = .ok .done := by
  obtain ⟨m', hBuild, _⟩ := hb.build hOpen ids
  rw [StoredBuilder.execute, hBuild]
  rfl

/-- Every command keeps a builder consistent, whether it is rejected or not. -/
theorem Consistent.execute (hb : b.Consistent) (ids : IdSupply) (c : Command α κ) :
    (b.execute ids c).1.Consistent := by
  rcases Bool.eq_false_or_eq_true b.built with hBuilt | hOpen
  · rw [execute_of_built hBuilt]
    exact hb
  · by_cases hc : c = .build
    · obtain ⟨m', hBuild, hm'⟩ := hb.build hOpen ids
      subst hc
      rw [StoredBuilder.execute, hBuild]
      exact ⟨hm', fun e he => absurd he (Array.not_mem_empty e)⟩
    · obtain ⟨nodes, elements, hResult, hFits⟩ := execute_of_open hOpen ids hc
      rw [hResult]
      refine ⟨hb.model, fun e he => ?_⟩
      rcases Array.mem_append.mp he with he | he
      · refine (hb.staged e he).mono (Nat.add_le_add_left ?_ _)
        rw [Array.size_append]
        exact Nat.le_add_right _ _
      · exact hFits e he

theorem Consistent.run (hb : b.Consistent) (ids : IdSupply) (commands : List (Command α κ)) :
    (b.run ids commands).1.Consistent := by
  induction commands generalizing b ids with
  | nil => exact hb
  | cons c commands ih => exact ih (hb.execute ids c) _

end StoredBuilder

/-! ### All models of a program -/

namespace StoredModel

variable {m : StoredModel α κ}

/-- A session keeps a model consistent, whether its builder is built or dropped. -/
theorem Consistent.session (hm : m.Consistent) (commands : List (Command α κ)) (ids : IdSupply) :
    (m.session commands ids).1.Consistent :=
  ((StoredBuilder.consistent_ofModel hm).run ids commands).model

/-- What a program may do with models of one kind of elements, which it finds by their places in a
list. The identities are those that other systems have left. -/
inductive Action (α : Type) [ElementFamily α] (κ : Kind α) where
  | new (config : Config α) (ids : IdSupply)
  /-- A copy of the model at place `k`, which goes its own way afterwards. -/
  | clone (k : Nat)
  | session (k : Nat) (commands : List (Command α κ)) (ids : IdSupply)

/-- The models after an action. There is none without a model at its place. -/
def Action.apply : Action α κ → List (StoredModel α κ) → List (StoredModel α κ)
  | new config ids, models => models ++ [(ofConfig config ids).1]
  | clone k, models => models ++ models[k]?.toList
  | session k commands ids, models => models.modify k fun m => (m.session commands ids).1

/-- The models of a program, which begins without any. -/
def runActions (actions : List (Action α κ)) : List (StoredModel α κ) :=
  actions.foldl (fun models a => a.apply models) []

/-- Every action keeps all models consistent. -/
theorem Action.consistent_apply {models : List (StoredModel α κ)}
    (hModels : ∀ m ∈ models, m.Consistent) (a : Action α κ) :
    ∀ m ∈ a.apply models, m.Consistent := by
  intro m hm
  cases a with
  | new config ids =>
      rcases List.mem_append.mp hm with hm | hm
      · exact hModels m hm
      · rw [List.mem_singleton.mp hm]
        exact consistent_ofConfig config ids
  | clone k =>
      rcases List.mem_append.mp hm with hm | hm
      · exact hModels m hm
      · exact hModels m (List.mem_of_getElem? (Option.mem_toList.mp hm))
  | session k commands ids =>
      obtain ⟨i, hi, rfl⟩ := List.mem_iff_getElem.mp hm
      simp only [apply, List.getElem_modify]
      split
      · exact (hModels _ (List.getElem_mem _)).session commands ids
      · exact hModels _ (List.getElem_mem _)

theorem consistent_of_mem_runActions {actions : List (Action α κ)} (hm : m ∈ runActions actions) :
    m.Consistent := by
  have hAll (models : List (StoredModel α κ)) (hModels : ∀ m ∈ models, m.Consistent) :
      ∀ m ∈ actions.foldl (fun models a => a.apply models) models, m.Consistent := by
    clear hm
    induction actions generalizing models with
    | nil => exact hModels
    | cons a actions ih => exact ih _ (a.consistent_apply hModels)
  exact hAll [] nofun m hm

/-- The representation of a model, in every program. After any sessions and copies, the nodes of
every element are distinct and exist; the pattern has a row for every node and exactly the blocks of
nodes with a common element; the system has the reference positions node by node, so that both have
three degrees of freedom for every node; and the slot that the model keeps is declared with the
present elements and gives their data for every motion. So the system can be told from the rest of
the model: sessions are those of models without systems. In each of them the first build succeeds,
and everything after it is rejected. -/
theorem representation_runActions {actions : List (Action α κ)} (hm : m ∈ runActions actions) :
    (∀ e ∈ m.elements, ((kind κ).nodes e).toList.Nodup ∧
      ∀ i ∈ ((kind κ).nodes e).toList, i < m.numNodes) ∧
    m.pattern.size = m.numNodes ∧
    (∀ i j, m.pattern.contains i j = true ↔
      ∃ e ∈ m.elements, i ∈ ((kind κ).nodes e).toList ∧ j ∈ ((kind κ).nodes e).toList) ∧
    (∀ i, m.pattern.contains i i = true ↔ ∃ e ∈ m.elements, i ∈ ((kind κ).nodes e).toList) ∧
    m.stateSystem.referencePositions = Stacked.ofNodes m.referencePositions.toList ∧
    m.stateSystem.numDofs = 3 * m.numNodes ∧
    (Model.typed m.toModel).numDofs = 3 * m.numNodes ∧
    m.stateSystem.entries[m.elementDataSlot]? =
      some (TypedModel.elementDataEntry m.elements.toList) ∧
    (∀ x : Motion α, ((Memo.fresh x m.stateSystem.entries.length).eval m.stateSystem.entries
      m.elementDataSlot).1 = .ok (.elements κ
        (m.elements.toList.map fun e => (kind κ).dataAt e x))) ∧
    m.toModel.system = m.stateSystem ∧
    (∀ commands ids, ((m.session commands ids).1.toModel, (m.session commands ids).2) =
      m.toModel.session commands ids) ∧
    ∀ commands ids ids', ∀ b, ((StoredBuilder.ofModel m).run ids commands).1 = b →
      (.build ∉ commands → (b.execute ids' .build).2.2 = .ok .done) ∧
      (.build ∈ commands → ∀ c, b.execute ids' c = (b, ids', .error .builderConsumed)) := by
  have hConsistent := consistent_of_mem_runActions hm
  refine ⟨fun e he => ⟨(hConsistent.fits e he).distinct, (hConsistent.fits e he).lt⟩,
    Pattern.size_of_ofEntries hConsistent.pattern, fun i j => hConsistent.contains_pattern,
    fun i => ?_, ?_, hConsistent.numDofs_stateSystem, ?_, hConsistent.getElem?_entries, fun x => ?_,
    hConsistent.system.symm, m.toModel_session,
    fun commands ids ids' b hb => ⟨fun hOpen => ?_, fun hBuilt c => ?_⟩⟩
  · simp only [hConsistent.contains_pattern, and_self]
  · rw [hConsistent.system]
    rfl
  · rw [Model.numDofs, Model.numNodes]
    rfl
  · rw [Memo.eval, Memo.evalWithin_done _ hConsistent.getElem?_entries (Memo.slot?_fresh x _ _) rfl]
    rfl
  · have hb' : b.Consistent := hb ▸ (StoredBuilder.consistent_ofModel hConsistent).run ids commands
    refine hb'.execute_build ?_ ids'
    rw [← Bool.not_eq_true, ← hb, StoredBuilder.built_run_ofModel]
    exact hOpen
  · refine StoredBuilder.execute_of_built ?_ ids' c
    rw [← hb, StoredBuilder.built_run_ofModel]
    exact hBuilt

/-! ### A tetrahedron and its copy -/

/-- A model of a tetrahedron is copied, and the copy gets a fifth node. A cell with a repeated
vertex is rejected, a command after the build of a builder too, and the last builder is never
built. -/
def cornerActions : List (Action ℚ Shape.tet4) :=
  [.new Workspace.cornerConfig ⟨0⟩,
    .session 0 (Workspace.cornerCommands ++ [.addNode ⟨1, 1, 1⟩]) ⟨2⟩, .clone 0,
    .session 1 [.addNode ⟨1, 1, 1⟩, .addCells [⟨0, 0, 0⟩] [#v[0, 0, 0, 0]]
      { law := .linearElastic, lame := ⟨1, 1⟩, density := 1, damping := ⟨1, 2⟩,
        lumping := .consistent }, .build] ⟨3⟩,
    .session 0 [.addNode ⟨0, 0, 0⟩] ⟨4⟩]

/-- The nodes of the tetrahedron are coupled in the copy, and its fifth node has no block. -/
theorem representation_runActions_corner : ∃ m ∈ runActions cornerActions,
    m.stateSystem.numDofs = 15 ∧ m.pattern.contains 3 1 = true ∧
      ¬ m.pattern.contains 4 4 = true := by
  obtain ⟨m, hm, hNodes, hElements⟩ : ∃ m ∈ runActions cornerActions, m.numNodes = 5 ∧
      m.elements.toList.map (fun e : Element .tet4 ℚ => e.nodes.toList) = [[3, 0, 2, 1]] :=
    ⟨_, List.mem_cons_of_mem _ List.mem_cons_self, by decide +kernel, by decide +kernel⟩
  obtain ⟨_, _, hBlocks, _, _, hDofs, _⟩ := representation_runActions hm
  have hContains (i j : Nat) : m.pattern.contains i j = true ↔
      ∃ e : Element .tet4 ℚ, e ∈ m.elements ∧ i ∈ e.nodes.toList ∧ j ∈ e.nodes.toList :=
    hBlocks i j
  have hElement (nodes : List Nat) :
      (∃ e : Element .tet4 ℚ, e ∈ m.elements ∧ e.nodes.toList = nodes) ↔ nodes = [3, 0, 2, 1] := by
    rw [← List.mem_singleton, ← hElements, List.mem_map]
    simp
  refine ⟨m, hm, ?_, ?_, ?_⟩
  · rw [hDofs, hNodes]
  · obtain ⟨e, he, hList⟩ := (hElement _).mpr rfl
    rw [hContains]
    exact ⟨e, he, by simp [hList], by simp [hList]⟩
  · rw [hContains]
    rintro ⟨e, he, hMem, _⟩
    rw [(hElement _).mp ⟨e, he, rfl⟩] at hMem
    simp at hMem

end StoredModel

end Elastodynamics
