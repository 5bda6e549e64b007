import Elastodynamics.Proofs.Model.Staging
import Elastodynamics.Proofs.Model.Structure
/-!
Builder sessions. Staged elements only use nodes that exist by the time of building, so a build
never fails, and a session ends with the model as it was or with a well-formed model that has a new
identity. What is staged but never built is lost.
-/
namespace Elastodynamics

open Sparse

variable {α : Type} [ElementFamily α] {κ : Kind α}

/-- The builder and the supply of identities after a list of commands, accepted or not. -/
def Builder.run (b : Builder α κ) (ids : IdSupply) : List (Command α κ) → Builder α κ × IdSupply
  | [] => (b, ids)
  | c :: commands =>
    let (b, ids, _) := b.execute ids c
    b.run ids commands

namespace TypedModel

/-- The model and the supply of identities after a session with a new builder. -/
def session (m : TypedModel α κ) (commands : List (Command α κ)) (ids : IdSupply) :
    TypedModel α κ × IdSupply :=
  let (b, ids) := (Builder.ofModel m).run ids commands
  (b.model, ids)

/-- Elements on nodes that exist have a pattern. -/
theorem exists_pattern {elements : Array (kind κ).Element} {numNodes : Nat}
    (hLt : ∀ e ∈ elements, ∀ i ∈ ((kind κ).nodes e).toList, i < numNodes) :
    ∃ P, Pattern.ofElements numNodes (elements.toList.map fun e => ((kind κ).nodes e).toList) =
      .ok P := by
  refine Pattern.ofElements_of_lt fun l hl i hi => ?_
  obtain ⟨e, he, rfl⟩ := List.mem_map.mp hl
  exact hLt e (Array.mem_toList_iff.mp he) i hi

variable {m : TypedModel α κ}

/-- A model with the pattern of its elements has a block for two nodes exactly if some element has
both. -/
theorem contains_pattern_iff (hPattern : Pattern.ofElements m.referencePositions.size
      (m.elements.toList.map fun e => ((kind κ).nodes e).toList) = .ok m.pattern) {i j : Nat} :
    m.pattern.contains i j = true ↔
      ∃ e ∈ m.elements, i ∈ ((kind κ).nodes e).toList ∧ j ∈ ((kind κ).nodes e).toList := by
  rw [Pattern.contains_of_ofElements hPattern]
  simp

theorem WellFormed.size_pattern (h : m.WellFormed) :
    m.pattern.size = m.referencePositions.size :=
  Pattern.size_of_ofEntries h.pattern

/-- Every two nodes of an element have a block. -/
theorem WellFormed.contains_pattern (h : m.WellFormed) {e : (kind κ).Element} (he : e ∈ m.elements)
    {i j : Nat} (hi : i ∈ ((kind κ).nodes e).toList) (hj : j ∈ ((kind κ).nodes e).toList) :
    m.pattern.contains i j = true :=
  (contains_pattern_iff h.pattern).mpr ⟨e, he, hi, hj⟩

theorem WellFormed.node_lt (h : m.WellFormed) {e : (kind κ).Element} (he : e ∈ m.elements) {i : Nat}
    (hi : i ∈ ((kind κ).nodes e).toList) : i < m.referencePositions.size := by
  rw [← h.size_pattern]
  exact (Pattern.lt_size_of_contains (h.contains_pattern he hi hi)).1

theorem wellFormed_ofConfig (config : Config α) (ids : IdSupply) :
    (ofConfig (κ := κ) config ids).1.WellFormed where
  constructed := by simp [ofConfig]
  pattern := by
    have hEmpty : Pattern.ofCoords 0 [] = Pattern.empty 0 := by
      simp [Pattern.ofCoords, Pattern.empty, Coord.canonical, Coord.distinct]
    refine Pattern.ofEntries_eq_ok_iff.mpr ⟨?_, ?_⟩
    · simp [ofConfig]
    · simp [ofConfig, hEmpty]

/-- A model that is extended by elements on its nodes gets their pattern and a new identity. -/
theorem extend_of_fits (h : m.WellFormed) (nodes : Array (Vec3 α))
    {elements : Array (kind κ).Element}
    (hFits : ∀ e ∈ elements, (kind κ).Fits e (m.referencePositions.size + nodes.size))
    (ids : IdSupply) :
    ∃ P, m.extend nodes elements ids = ({ m with
        referencePositions := m.referencePositions ++ nodes
        elements := m.elements ++ elements
        pattern := P
        systemId := ids.fresh.1 }, ids.fresh.2, .ok ()) ∧
      Pattern.ofElements (m.referencePositions ++ nodes).size
        ((m.elements ++ elements).toList.map fun e => ((kind κ).nodes e).toList) = .ok P := by
  have hLt : ∀ e ∈ m.elements ++ elements, ∀ i ∈ ((kind κ).nodes e).toList,
      i < (m.referencePositions ++ nodes).size := by
    intro e he i hi
    rw [Array.size_append]
    rcases Array.mem_append.mp he with he | he
    · have := h.node_lt he hi
      omega
    · exact (hFits e he).lt i hi
  obtain ⟨P, hP⟩ := exists_pattern hLt
  exact ⟨P, by simp only [extend, hP], hP⟩

/-- A well-formed model that is extended by elements on its nodes is well-formed again. -/
theorem extend_of_wellFormed (h : m.WellFormed) (nodes : Array (Vec3 α))
    {elements : Array (kind κ).Element} (hConstructed : ∀ e ∈ elements, (kind κ).Constructed e)
    (hFits : ∀ e ∈ elements, (kind κ).Fits e (m.referencePositions.size + nodes.size))
    (ids : IdSupply) :
    ∃ m', m.extend nodes elements ids = (m', ids.fresh.2, .ok ()) ∧ m'.WellFormed ∧
      m'.systemId = ids.fresh.1 := by
  obtain ⟨P, hExtend, hP⟩ := extend_of_fits h nodes hFits ids
  refine ⟨_, hExtend, ⟨?_, hP⟩, rfl⟩
  intro e he
  rcases Array.mem_append.mp he with he | he
  · exact h.constructed e he
  · exact hConstructed e he

end TypedModel

namespace Builder

/-! ### Sessions -/

/-- What holds of a builder, and of the supply of identities, throughout a session that begins with
the model `m` and the supply `ids`. -/
inductive InSession (m : TypedModel α κ) (ids : IdSupply) : Builder α κ → IdSupply → Prop where
  /-- Nothing has been built, and what is staged fits together. -/
  | staging {nodes : Array (Vec3 α)} {elements : Array (kind κ).Element}
      (hConstructed : ∀ e ∈ elements, (kind κ).Constructed e)
      (hFits : ∀ e ∈ elements, (kind κ).Fits e (m.referencePositions.size + nodes.size)) :
      InSession m ids ⟨m, nodes, elements, false⟩ ids
  /-- The builder is used up. -/
  | built {m' : TypedModel α κ} (hModel : m'.WellFormed) (hId : m'.systemId = ids.fresh.1) :
      InSession m ids ⟨m', #[], #[], true⟩ ids.fresh.2

variable {m : TypedModel α κ} {ids ids' : IdSupply} {b : Builder α κ}

/-- A build in a session of a well-formed model is rejected only if it is not the first one. -/
theorem InSession.build (hm : m.WellFormed) (h : InSession m ids b ids') :
    InSession m ids (b.build ids').1 (b.build ids').2.1 := by
  cases h with
  | @staging nodes elements hConstructed hFits =>
      obtain ⟨m', hExtend, hModel, hId⟩ :=
        TypedModel.extend_of_wellFormed hm nodes hConstructed hFits ids
      rw [Builder.build, if_neg Bool.false_ne_true, hExtend]
      exact .built hModel hId
  | built hModel hId => exact .built hModel hId

/-- Every command keeps what holds in a session. -/
theorem InSession.execute (hm : m.WellFormed) (h : InSession m ids b ids') (c : Command α κ)
    (hc : c.Constructed) : InSession m ids (b.execute ids' c).1 (b.execute ids' c).2.1 := by
  by_cases hBuild : c = .build
  · subst hBuild
    exact h.build hm
  · cases h with
    | @staging nodes elements hConstructed hFits =>
        obtain ⟨hIds, added, staged, hResult, hStaged, hMade⟩ :=
          execute_of_open (b := ⟨m, nodes, elements, false⟩) rfl ids hBuild
        have hCount : numNodes ⟨m, nodes, elements, false⟩ + added.length =
            m.referencePositions.size + (nodes ++ added.toArray).size := by
          rw [numNodes, Array.size_append, Nat.add_assoc]
          rfl
        rw [hResult, hIds]
        refine .staging (fun e he => ?_) fun e he => ?_
        · rcases Array.mem_append.mp he with he | he
          · exact hConstructed e he
          · exact hMade hc e (List.mem_toArray.mp he)
        · rcases Array.mem_append.mp he with he | he
          · refine (hFits e he).mono (Nat.add_le_add_left ?_ _)
            rw [Array.size_append]
            exact Nat.le_add_right _ _
          · exact hCount ▸ hStaged e (List.mem_toArray.mp he)
    | built hModel hId =>
        rw [execute_of_built rfl]
        exact .built hModel hId

theorem InSession.run (hm : m.WellFormed) (h : InSession m ids b ids')
    {commands : List (Command α κ)} (hCommands : ∀ c ∈ commands, c.Constructed) :
    InSession m ids (b.run ids' commands).1 (b.run ids' commands).2 := by
  induction commands generalizing b ids' with
  | nil => exact h
  | cons c commands ih =>
      have hHead := h.execute hm c (hCommands c List.mem_cons_self)
      exact ih hHead fun c hc => hCommands c (List.mem_cons_of_mem _ hc)

end Builder

/-- A session with a well-formed model either changes nothing or gives a well-formed model with a
new identity. -/
theorem TypedModel.session_of_wellFormed {m : TypedModel α κ} (hm : m.WellFormed)
    {commands : List (Command α κ)} (hCommands : ∀ c ∈ commands, c.Constructed) (ids : IdSupply) :
    m.session commands ids = (m, ids) ∨
      ∃ m', m.session commands ids = (m', ids.fresh.2) ∧ m'.WellFormed ∧
        m'.systemId = ids.fresh.1 := by
  have hStart : Builder.InSession m ids (.ofModel m) ids := .staging (by simp) (by simp)
  have hEnd := hStart.run hm hCommands
  rw [session]
  generalize (Builder.ofModel m).run ids commands = final at hEnd
  obtain ⟨b, ids'⟩ := final
  cases hEnd with
  | staging => exact .inl rfl
  | built hModel hId => exact .inr ⟨_, rfl, hModel, hId⟩

end Elastodynamics
