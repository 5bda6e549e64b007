import Elastodynamics.Proofs.Caching
import Elastodynamics.Proofs.Workspace.Descent
/-!
Identities of systems. The identity of a state says all that a model must know about it: the state
descends from the present system of the model, has its dimension, and holds the data of exactly its
elements. A model does not notice what is done to its copies.
-/
namespace Elastodynamics

open Event Model

variable {α : Type} [Scalar α] [ElementFamily α]

/-! ### Words -/

theorem SystemId.toNat_word {id : SystemId} (h : id.index < 2 ^ 64) : id.word.toNat = id.index :=
  UInt64.toNat_ofNat_of_lt' h

/-- As long as words do not wrap around, identities are told apart by them. -/
theorem SystemId.word_inj {a b : SystemId} (ha : a.index < 2 ^ 64) (hb : b.index < 2 ^ 64) :
    a.word = b.word ↔ a = b := by
  constructor
  · intro h
    have hIndex := congrArg UInt64.toNat h
    rw [toNat_word ha, toNat_word hb] at hIndex
    obtain ⟨i⟩ := a
    obtain ⟨j⟩ := b
    exact congrArg SystemId.mk hIndex
  · rintro rfl
    rfl

/-- Whether the checks of the model let a state pass, before any operation. -/
def Model.Accepts (m : Model α) (s : State α) : Prop :=
  ∀ operation, m.checkState s.contents operation = .ok ()

namespace Program

variable {P Q : Program α} {h later : List Event} {i j : Nat} {m : Held α} {s s' : State α}

theorem Steps.next_eq (hRun : Run h P) : P.ids.next = P.systems.length := by
  rw [← List.length_range (n := P.ids.next), ← hRun.numbered, List.length_map]

/-- The words of the systems increase in the order in which the systems are made. -/
theorem Steps.increasing (hRun : Run h P) (hCount : P.systems.length < 2 ^ 64) :
    (P.systems.map fun s => s.id.word).Pairwise (· < ·) := by
  have hIndices : (P.systems.map fun s => s.id.index).Pairwise (· < ·) := by
    rw [hRun.numbered]
    exact List.pairwise_lt_range
  have hLt (s : System α) (hs : s ∈ P.systems) : s.id.index < 2 ^ 64 :=
    (hRun.lt_next hs).trans (hRun.next_eq ▸ hCount)
  rw [List.pairwise_map] at hIndices ⊢
  refine hIndices.imp_of_mem fun {s t} hs ht hst => ?_
  rw [UInt64.lt_iff_toNat_lt, SystemId.toNat_word (hLt s hs), SystemId.toNat_word (hLt t ht)]
  exact hst

/-! ### A model and a state -/

theorem Steps.wellFormed (hRun : Run h P) (hm : m ∈ P.models) : m.toModel.WellFormed := by
  obtain ⟨W, hW, _, hModels, _⟩ := hRun.workspace
  exact hW.sound.wellFormed _ (hModels m hm)

/-- A state with the identity of a model is a state of the model in every respect. -/
theorem Steps.coherent (hRun : Run h P) (hm : m ∈ P.models) (hs : s ∈ P.states)
    (hId : s.system.id = m.toModel.systemId) :
    s.system = m.stateSystem ∧ m.toModel.Coherent s.memo := by
  obtain ⟨W, hW, _, hModels, hStates⟩ := hRun.workspace
  obtain ⟨hSystem, hCoherent⟩ := hW.sound.coherent _ (hModels m hm) s (hStates s hs) hId
  exact ⟨hSystem.trans (hRun.consistent m hm).system_toModel, hCoherent⟩

/-- A model accepts exactly the states with its identity: the check of the dimension never
decides. -/
theorem Steps.accepts_iff (hRun : Run h P) (hm : m ∈ P.models) (hs : s ∈ P.states) :
    m.toModel.Accepts s ↔ s.system.id = m.toModel.systemId := by
  constructor
  · intro hAccepts
    exact (checkState_eq_ok_iff.mp (hAccepts "")).1
  · intro hId
    exact checkState_of_coherent hId (hRun.coherent hm hs hId).2

/-- The identity of a model is that of the states that descend from its present system. -/
theorem Steps.id_eq_iff (hRun : Run h P) (hm : P.models[i]? = some m) (hs : P.states[j]? = some s) :
    s.system.id = m.toModel.systemId ↔ Descends h j i := by
  rw [m.systemId_toModel]
  constructor
  · exact hRun.descends_of_id hm hs
  · intro hDescends
    rw [hRun.system_of_descends hDescends hm hs]

/-- The data of a state of a model of elements is that of the elements of the model. -/
theorem Steps.data (hRun : Run h P) {κ : Kind α} {m : StoredModel α κ}
    (hm : .typed m ∈ P.models) (hs : s ∈ P.states) (hId : s.system.id = m.toModel.systemId) :
    (s.evalSlot m.elementDataSlot).1 = .ok (.elements κ
      (m.elements.toList.map fun e => (kind κ).dataAt e s.motion)) ∧
    (m.toModel.evalElements s.memo).1 =
      m.elements.toList.map fun e => (e, (kind κ).dataAt e s.motion) := by
  have hConsistent : m.Consistent := hRun.consistent _ hm
  obtain ⟨hSystem, hCoherent⟩ := hRun.coherent hm hs hId
  have hMemo : m.toModel.Coherent s.memo := coherent_typed.mp hCoherent
  have hSystem' : s.system = m.toModel.system := hSystem.trans hConsistent.system
  constructor
  · obtain ⟨_, hEval, _⟩ := hMemo.eval
    rw [State.evalSlot, hSystem', hConsistent.slot, hEval]
    rfl
  · obtain ⟨_, hEval, _⟩ := hMemo.evalElements
    rw [hEval]
    rfl

/-- Two states of a model with the same motion give the same results, at different times of a
program too. -/
theorem Steps.calc_congr (hRun : Run h P) (hLater : Steps P later Q) (hm : m ∈ P.models)
    (hm' : m ∈ Q.models) (hs : s ∈ P.states) (hs' : s' ∈ Q.states)
    (hId : s.system.id = m.toModel.systemId) (hId' : s'.system.id = m.toModel.systemId)
    (hMotion : s'.motion = s.motion) :
    (∀ r, (m.toModel.calcResidual s' r).2 = (m.toModel.calcResidual s r).2) ∧
    (∀ w A, (m.toModel.calcTangent s' w A).2 = (m.toModel.calcTangent s w A).2) ∧
    (m.toModel.calcEnergy s').2 = (m.toModel.calcEnergy s).2 := by
  have hCoherent := (hRun.coherent hm hs hId).2
  have hCoherent' := ((hRun.trans hLater).coherent hm' hs' hId').2
  have hOwner : s'.system.id = s.system.id := hId'.trans hId.symm
  exact ⟨calcResidual_congr hCoherent' hCoherent hOwner hMotion,
    calcTangent_congr (hRun.wellFormed hm) hCoherent' hCoherent hOwner hMotion,
    calcEnergy_congr hCoherent' hCoherent hOwner hMotion⟩

/-! ### Programs -/

/-- Identities of systems are sound in every program that makes fewer systems than there are words.
The words of the systems increase in the order in which they are made, and every model and every
state has one of these systems. A model accepts exactly the states that descend, through copies and
writes, from a new state of a model which shares its present system, that is, of itself since its
last build, or of a copy with no build in between on either side; the words alone tell. Until a
model is built again, whatever is done to its copies, the model stays the same, and so do the
results for states with the same motion that it accepts. A state that a model of elements accepts
has the dimension of the model and holds one piece of data for each element, computed by this
element, so none is lost when elements and data are paired. -/
theorem identity_of_run (hRun : Run h P) (hCount : P.systems.length < 2 ^ 64) :
    ((P.systems.map fun s => s.id.word).Pairwise (· < ·) ∧
      (∀ m ∈ P.models, m.stateSystem ∈ P.systems) ∧ ∀ s ∈ P.states, s.system ∈ P.systems) ∧
    (∀ i m j s, P.models[i]? = some m → P.states[j]? = some s →
      (m.toModel.Accepts s ↔ Descends h j i) ∧
      (m.toModel.Accepts s ↔ s.system.id.word = m.toModel.systemId.word) ∧
      (m.toModel.Accepts s → s.numDofs = m.toModel.numDofs)) ∧
    (∀ i m later Q, P.models[i]? = some m → Steps P later Q → .modelBuilt i ∉ later →
      Q.models[i]? = some m ∧
      ∀ s ∈ P.states, ∀ s' ∈ Q.states, m.toModel.Accepts s → m.toModel.Accepts s' →
        s'.motion = s.motion →
        (∀ r, (m.toModel.calcResidual s' r).2 = (m.toModel.calcResidual s r).2) ∧
        (∀ w A, (m.toModel.calcTangent s' w A).2 = (m.toModel.calcTangent s w A).2) ∧
        (m.toModel.calcEnergy s').2 = (m.toModel.calcEnergy s).2) ∧
    ∀ (κ : Kind α) (m : StoredModel α κ), .typed m ∈ P.models → ∀ s ∈ P.states,
      (Model.typed m.toModel).Accepts s →
      (s.evalSlot m.elementDataSlot).1 = .ok (.elements κ
        (m.elements.toList.map fun e => (kind κ).dataAt e s.motion)) ∧
      (m.toModel.evalElements s.memo).1 =
        m.elements.toList.map fun e => (e, (kind κ).dataAt e s.motion) := by
  have hLt {s : System α} (hs : s ∈ P.systems) : s.id.index < 2 ^ 64 :=
    (hRun.lt_next hs).trans (hRun.next_eq ▸ hCount)
  obtain ⟨hModels, hStates⟩ := hRun.listed
  refine ⟨⟨hRun.increasing hCount, hModels, hStates⟩, fun i m j s hm hs => ?_,
    fun i m later Q hm hLater hNot => ?_, fun κ m hm s hs hAccepts => ?_⟩
  · have hm' := List.mem_of_getElem? hm
    have hs' := List.mem_of_getElem? hs
    have hAccepts := hRun.accepts_iff hm' hs'
    refine ⟨hAccepts.trans (hRun.id_eq_iff hm hs), ?_, fun h => ?_⟩
    · rw [hAccepts, m.systemId_toModel]
      exact (SystemId.word_inj (hLt (hStates s hs')) (hLt (hModels m hm'))).symm
    · exact (hRun.coherent hm' hs' (hAccepts.mp h)).2.sized .positions
  · have hKept := hRun.model_kept hLater hm hNot
    have hm' := List.mem_of_getElem? hm
    have hKept' := List.mem_of_getElem? hKept
    refine ⟨hKept, fun s hs s' hs' hAccepts hAccepts' hMotion => ?_⟩
    have hId := (hRun.accepts_iff hm' hs).mp hAccepts
    have hId' := ((hRun.trans hLater).accepts_iff hKept' hs').mp hAccepts'
    exact hRun.calc_congr hLater hm' hKept' hs hs' hId hId' hMotion
  · exact hRun.data hm hs ((hRun.accepts_iff hm hs).mp hAccepts)

/-! ### A tetrahedron and its copy -/

/-- A tetrahedron is built and copied, each of the two has a state, and the copy is built again in
between: the second state is made after that, and the first one is copied at the end. -/
def twinHistory : List Event :=
  [.stateCloned 0, .stateMade 1, .modelBuilt 1, .stateMade 0, .modelCloned 0, .modelBuilt 0,
    .modelMade]

theorem run_twin : ∃ P : Program ℚ, Run twinHistory P ∧ P.systems.length < 2 ^ 64 ∧
    P.models.length = 2 ∧ P.states.length = 3 := by
  have hCorner : ∀ c ∈ Workspace.cornerCommands, c.Constructed := by
    simp [Workspace.cornerCommands]
  have hAgain : ∀ c ∈ [.addNode ⟨1, 1, 1⟩, (.build : Command ℚ Shape.tet4)], c.Constructed := by
    simp
  have hMade := Steps.refl.step (Step.newModel empty Shape.tet4 Workspace.cornerConfig)
  have hBuilt := hMade.step (.build _ (k := 0) rfl hCorner (by simp [Workspace.cornerCommands]))
  have hCloned := hBuilt.step (.cloneModel _ (k := 0) rfl)
  have hFirst := hCloned.step (.makeState _ (k := 0) rfl)
  have hRebuilt := hFirst.step (.build _ (k := 1) rfl hAgain (by simp))
  have hSecond := hRebuilt.step (.makeState _ (k := 1) rfl)
  exact ⟨_, hSecond.step (.cloneState _ (j := 0) rfl), by decide, rfl, rfl⟩

/-- The copied state descends from the system of the first model, not from that of the second one,
which has been built since. -/
theorem descends_twin : Descends twinHistory 2 0 ∧ ¬Descends twinHistory 2 1 := by
  constructor
  · have hMade : Descends [.stateMade 0, .modelCloned 0, .modelBuilt 0, .modelMade] 0 0 :=
      .made (.self (by decide))
    have hBuilt := hMade.kept (e := .modelBuilt 1) (by decide)
    exact (hBuilt.kept (e := .stateMade 1) nofun).clonedState
  · unfold twinHistory
    intro h
    cases h with
    | kept prior _ => exact absurd prior.lt.1 (by decide)
    | clonedState prior =>
        cases prior with
        | kept prior _ =>
            cases prior with
            | kept prior hNot => exact hNot rfl

/-- The first model accepts the copied state, and the second one does not. -/
theorem identity_of_run_twin : ∃ P : Program ℚ, Run twinHistory P ∧ ∃ m m' s,
    P.models[0]? = some m ∧ P.models[1]? = some m' ∧ P.states[2]? = some s ∧
    m.toModel.Accepts s ∧ ¬m'.toModel.Accepts s := by
  obtain ⟨P, hRun, hCount, hModels, hStates⟩ := run_twin
  have hm : P.models[0]? = some P.models[0] := List.getElem?_eq_getElem (by omega)
  have hm' : P.models[1]? = some P.models[1] := List.getElem?_eq_getElem (by omega)
  have hs : P.states[2]? = some P.states[2] := List.getElem?_eq_getElem (by omega)
  obtain ⟨_, hAccepts, _⟩ := identity_of_run hRun hCount
  refine ⟨P, hRun, _, _, _, hm, hm', hs, ?_, fun h => ?_⟩
  · exact (hAccepts 0 _ 2 _ hm hs).1.mpr descends_twin.1
  · exact descends_twin.2 ((hAccepts 1 _ 2 _ hm' hs).1.mp h)

end Program

end Elastodynamics
