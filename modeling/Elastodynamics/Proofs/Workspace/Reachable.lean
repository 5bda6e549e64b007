import Elastodynamics.Proofs.Algebra.Exact
import Elastodynamics.Element.Response
import Elastodynamics.Proofs.Model.Session
import Elastodynamics.Proofs.Workspace.Operation
/-!
Programs that use the library. A workspace holds the models and the states that a program has made
so far, together with the supply of identities. Nothing is removed from it: a model that has been
extended, or has become a body of another one, stays as the copy that the program may have kept, and
so does a state before each operation on it. In every workspace that a program can reach all models
are well-formed, a model is known by its identity, and the states of a model are coherent.
-/
namespace Elastodynamics

variable {α : Type} [Scalar α] [ElementFamily α]

/-- The models and the states that have been made, and the identities that have not been used. -/
structure Workspace (α : Type) [ElementFamily α] where
  ids : IdSupply
  models : List (Model α)
  states : List (State α)

namespace Workspace

/-- A step of a program. -/
inductive Step : Workspace α → Workspace α → Prop where
  /-- A new model of elements, which has none yet. -/
  | newModel (W : Workspace α) (κ : Kind α) (config : Config α) :
      Step W { W with
        ids := (TypedModel.ofConfig (κ := κ) config W.ids).2
        models := .typed (TypedModel.ofConfig (κ := κ) config W.ids).1 :: W.models }
  /-- A session of a builder with a model of elements. Elements can only be made in
  the ways that their kind knows. -/
  | session (W : Workspace α) {κ : Kind α} {m : TypedModel α κ} (hModel : .typed m ∈ W.models)
      {commands : List (Command α κ)} (hCommands : ∀ c ∈ commands, c.Constructed) :
      Step W { W with
        ids := (m.session commands W.ids).2
        models := .typed (m.session commands W.ids).1 :: W.models }
  /-- A model made of bodies, if they make one. -/
  | compose (W : Workspace α) {bodies : List (Model α)} (hBodies : ∀ b ∈ bodies, b ∈ W.models)
      {m : Model α} {ids : IdSupply} (hResult : Model.ofBodies bodies W.ids = (.ok m, ids)) :
      Step W { W with ids, models := m :: W.models }
  /-- A state of a system that belongs to no model. -/
  | declare (W : Workspace α) (referencePositions : Array α) (entries : List (Entry α)) :
      Step W { W with
        ids := W.ids.fresh.2
        states := .ofSystem ⟨W.ids.fresh.1, referencePositions, entries⟩ :: W.states }
  /-- A new state of a model. -/
  | makeState (W : Workspace α) {m : Model α} (hModel : m ∈ W.models) :
      Step W { W with states := m.makeState :: W.states }
  /-- An operation on a state, with any of the models. -/
  | operate (W : Workspace α) {s : State α} (hState : s ∈ W.states) (op : Operation α)
      (hModel : ∀ m, op.model? = some m → m ∈ W.models) :
      Step W { W with states := op.apply s :: W.states }

/-- The workspaces of programs, which begin with nothing. -/
inductive Reachable : Workspace α → Prop where
  | start (ids : IdSupply) : Reachable ⟨ids, [], []⟩
  | step {W W' : Workspace α} (prior : Reachable W) (last : Step W W') : Reachable W'

/-- What holds of every workspace of a program. -/
structure Sound (W : Workspace α) : Prop where
  wellFormed : ∀ m ∈ W.models, m.WellFormed
  modelId : ∀ m ∈ W.models, m.systemId.index < W.ids.next
  eq_of_id : ∀ m ∈ W.models, ∀ m' ∈ W.models, m.systemId = m'.systemId → m = m'
  stateId : ∀ s ∈ W.states, s.system.id.index < W.ids.next
  coherent : ∀ m ∈ W.models, ∀ s ∈ W.states, s.system.id = m.systemId →
    s.system = m.system ∧ m.Coherent s.memo

variable {W W' : Workspace α}

/-! ### Additions to a workspace -/

/-- A well-formed model whose identity has not been used may be added. -/
theorem Sound.addModel (hW : W.Sound) {m : Model α} (hm : m.WellFormed) {ids : IdSupply}
    (hNew : W.ids.next ≤ m.systemId.index) (hUsed : m.systemId.index < ids.next) :
    Sound { W with ids, models := m :: W.models } := by
  have hOther {m' : Model α} (hm' : m' ∈ W.models) : m.systemId ≠ m'.systemId := by
    intro h
    have := hW.modelId m' hm'
    rw [← h] at this
    omega
  refine ⟨fun m' hm' => ?_, fun m' hm' => ?_, fun m₁ h₁ m₂ h₂ hId => ?_, fun s hs => ?_,
    fun m' hm' s hs hId => ?_⟩
  · rcases List.mem_cons.mp hm' with rfl | hm'
    · exact hm
    · exact hW.wellFormed m' hm'
  · rcases List.mem_cons.mp hm' with rfl | hm'
    · exact hUsed
    · have := hW.modelId m' hm'
      simp only
      omega
  · rcases List.mem_cons.mp h₁ with hSame₁ | hOld₁
    · rcases List.mem_cons.mp h₂ with hSame₂ | hOld₂
      · exact hSame₁.trans hSame₂.symm
      · exact absurd (hSame₁ ▸ hId) (hOther hOld₂)
    · rcases List.mem_cons.mp h₂ with hSame₂ | hOld₂
      · exact absurd (hSame₂ ▸ hId.symm) (hOther hOld₁)
      · exact hW.eq_of_id m₁ hOld₁ m₂ hOld₂ hId
  · have := hW.stateId s hs
    simp only
    omega
  · rcases List.mem_cons.mp hm' with rfl | hm'
    · have := hW.stateId s hs
      rw [hId] at this
      omega
    · exact hW.coherent m' hm' s hs hId

/-- A copy of a model may be added. -/
theorem Sound.addCopy (hW : W.Sound) {m : Model α} (hm : m ∈ W.models) :
    Sound { W with models := m :: W.models } := by
  have hMem {m' : Model α} (hm' : m' ∈ m :: W.models) : m' ∈ W.models := by
    rcases List.mem_cons.mp hm' with rfl | hm'
    · exact hm
    · exact hm'
  exact ⟨fun m' hm' => hW.wellFormed m' (hMem hm'), fun m' hm' => hW.modelId m' (hMem hm'),
    fun m₁ h₁ m₂ h₂ => hW.eq_of_id m₁ (hMem h₁) m₂ (hMem h₂), hW.stateId,
    fun m' hm' => hW.coherent m' (hMem hm')⟩

/-- A state may be added that is coherent for every model with its identity. -/
theorem Sound.addState (hW : W.Sound) {s : State α} (hId : s.system.id.index < W.ids.next)
    (hState : ∀ m ∈ W.models, s.system.id = m.systemId →
      s.system = m.system ∧ m.Coherent s.memo) :
    Sound { W with states := s :: W.states } := by
  refine ⟨hW.wellFormed, hW.modelId, hW.eq_of_id, fun s' hs' => ?_, fun m hm s' hs' => ?_⟩
  · rcases List.mem_cons.mp hs' with rfl | hs'
    · exact hId
    · exact hW.stateId s' hs'
  · rcases List.mem_cons.mp hs' with rfl | hs'
    · exact hState m hm
    · exact hW.coherent m hm s' hs'

/-- A sound workspace stays sound when identities are left out. -/
theorem Sound.skipIds (hW : W.Sound) {ids : IdSupply} (h : W.ids.next ≤ ids.next) :
    Sound { W with ids } :=
  ⟨hW.wellFormed, fun m hm => Nat.lt_of_lt_of_le (hW.modelId m hm) h, hW.eq_of_id,
    fun s hs => Nat.lt_of_lt_of_le (hW.stateId s hs) h, hW.coherent⟩

/-! ### Steps and runs -/

/-- Every step of a program keeps its workspace sound. -/
theorem Sound.step (hW : W.Sound) (h : Step W W') : W'.Sound := by
  cases h with
  | newModel κ config =>
      refine hW.addModel (.typed (TypedModel.wellFormed_ofConfig config W.ids)) ?_ ?_
      · show W.ids.next ≤ W.ids.next + 1
        omega
      · show W.ids.next + 1 < W.ids.next + 1 + 1
        omega
  | @session κ m hModel commands hCommands =>
      have hm : m.WellFormed := by
        cases hW.wellFormed _ hModel with
        | typed h => exact h
      rcases TypedModel.session_of_wellFormed hm hCommands W.ids with hSame | ⟨m', hNew, hm', hId⟩
      · rw [hSame]
        exact hW.addCopy hModel
      · rw [hNew]
        have hIndex : (Model.typed m').systemId = W.ids.fresh.1 := hId
        refine hW.addModel (.typed hm') ?_ ?_
        · rw [hIndex]
          exact Nat.le_refl _
        · rw [hIndex]
          exact Nat.lt_succ_self _
  | @compose bodies hBodies m ids hResult =>
      obtain ⟨P, hOk, _, hm⟩ := Model.ofBodies_of_wellFormed
        (fun b hb => hW.wellFormed b (hBodies b hb)) W.ids
      rw [hOk] at hResult
      cases hResult
      exact hW.addModel hm (Nat.le_refl _) (Nat.lt_succ_self _)
  | declare referencePositions entries =>
      refine (hW.skipIds (Nat.le_succ W.ids.next)).addState (Nat.lt_succ_self _) fun m hm hId => ?_
      have hNew := hW.modelId m hm
      rw [← hId] at hNew
      exact absurd hNew (Nat.lt_irrefl _)
  | @makeState m hModel =>
      refine hW.addState ?_ fun m' hm' hId => ?_
      · show m.system.id.index < W.ids.next
        rw [m.id_system]
        exact hW.modelId m hModel
      · have hId' : m.system.id = m'.systemId := hId
        rw [m.id_system] at hId'
        have hSame := hW.eq_of_id m hModel m' hm' hId'
        subst hSame
        exact ⟨rfl, m.coherent_initial⟩
  | @operate s hState op hModel =>
      refine hW.addState ?_ fun m hm hId => ?_
      · rw [op.system_apply]
        exact hW.stateId s hState
      · rw [op.system_apply] at hId ⊢
        obtain ⟨hSystem, hCoherent⟩ := hW.coherent m hm s hState hId
        refine ⟨hSystem, op.coherent_apply (hW.wellFormed m hm) hSystem hCoherent ?_⟩
        intro m' hm' hId'
        exact hW.eq_of_id m' (hModel m' hm') m hm (hId'.trans hId)

/-- Every workspace of a program is sound. -/
theorem Reachable.sound (h : W.Reachable) : W.Sound := by
  induction h with
  | start ids => exact ⟨nofun, nofun, nofun, nofun, nofun⟩
  | step prior last ih => exact ih.step last

/-- The bodies of a model are models that a program has made before it. -/
theorem Reachable.body_mem (h : W.Reachable) {id : SystemId} {P : Sparse.Pattern}
    {bodies : List (Model α)} (hm : .composite id P bodies ∈ W.models) :
    ∀ b ∈ bodies, b ∈ W.models := by
  intro b hb
  induction h with
  | start ids => cases hm
  | @step W W' prior last ih =>
      cases last with
      | newModel κ config =>
          rcases List.mem_cons.mp hm with hNew | hOld
          · cases hNew
          · exact List.mem_cons_of_mem _ (ih hOld)
      | session hModel hCommands =>
          rcases List.mem_cons.mp hm with hNew | hOld
          · cases hNew
          · exact List.mem_cons_of_mem _ (ih hOld)
      | compose hBodies hResult =>
          rcases List.mem_cons.mp hm with hNew | hOld
          · obtain ⟨P', hOk, _⟩ := Model.ofBodies_of_wellFormed
              (fun b hb => prior.sound.wellFormed b (hBodies b hb)) W.ids
            rw [hOk, ← hNew] at hResult
            cases hResult
            exact List.mem_cons_of_mem _ (hBodies b hb)
          · exact List.mem_cons_of_mem _ (ih hOld)
      | declare referencePositions entries => exact ih hm
      | makeState hModel => exact ih hm
      | operate hState op hModel => exact ih hm

/-! ### A program with one tetrahedron -/

/-- No gravity, and no check for finite values. -/
def cornerConfig : Config ℚ := { Config.default with checkNumerics := false }

/-- One linear tetrahedron in the corner of the unit cube, with all kinds of matrices. -/
def cornerCommands : List (Command ℚ Shape.tet4) :=
  [.addCells [⟨0, 0, 0⟩, ⟨1, 0, 0⟩, ⟨0, 1, 0⟩, ⟨0, 0, 1⟩] [#v[3, 0, 2, 1]]
    { law := .linearElastic, lame := ⟨1, 1⟩, density := 1, damping := ⟨1, 2⟩,
      lumping := .consistent },
   .build]

/-- The model before anything is added to it. -/
def emptyModel : TypedModel ℚ Shape.tet4 := (TypedModel.ofConfig cornerConfig ⟨0⟩).1

/-- The model of the tetrahedron, and the identities that are left. -/
def cornerSession : TypedModel ℚ Shape.tet4 × IdSupply :=
  emptyModel.session cornerCommands (TypedModel.ofConfig (κ := Shape.tet4) cornerConfig ⟨0⟩).2

/-- The model of the tetrahedron. -/
def cornerModel : Model ℚ := .typed cornerSession.1

/-- The models of the program with a state of the tetrahedron. -/
def corner : Workspace ℚ where
  ids := cornerSession.2
  models := [cornerModel, .typed emptyModel]
  states := [cornerModel.makeState]

theorem reachable_corner : corner.Reachable := by
  have hNew := Reachable.step (.start ⟨0⟩) (.newModel _ Shape.tet4 cornerConfig)
  have hCommands : ∀ c ∈ cornerCommands, c.Constructed := by
    simp [cornerCommands]
  have hSession := Reachable.step hNew
    (.session _ (m := emptyModel) List.mem_cons_self hCommands)
  exact .step hSession (.makeState _ List.mem_cons_self)

/-! ### A program with two bodies -/

/-- Two tetrahedra as one model. -/
def pair : Model ℚ :=
  .composite corner.ids.fresh.1 (.ofCoords 8 (Model.blockEntries 0 [cornerModel, cornerModel]))
    [cornerModel, cornerModel]

/-- The program after it has made the model of two tetrahedra and a state of it. -/
def pairWorkspace : Workspace ℚ where
  ids := corner.ids.fresh.2
  models := pair :: corner.models
  states := pair.makeState :: corner.states

theorem mem_corner : ∀ b ∈ [cornerModel, cornerModel], b ∈ corner.models := by
  intro b hb
  rcases List.mem_cons.mp hb with rfl | hb
  · exact List.mem_cons_self
  · rw [List.mem_singleton.mp hb]
    exact List.mem_cons_self

theorem ofBodies_pair : Model.ofBodies [cornerModel, cornerModel] corner.ids =
    (.ok pair, corner.ids.fresh.2) := by
  obtain ⟨P, hOk, _, hWellFormed⟩ := Model.ofBodies_of_wellFormed
    (fun b hb => reachable_corner.sound.wellFormed b (mem_corner b hb)) corner.ids
  cases hWellFormed with
  | composite _ hPattern =>
      have hNodes : Model.totalNodes [cornerModel, cornerModel] = 8 := by decide +kernel
      rw [hOk, pair, ← hNodes, (Sparse.Pattern.ofEntries_eq_ok_iff.mp hPattern).2]

theorem reachable_pair : pairWorkspace.Reachable := by
  have hComposed := Reachable.step reachable_corner (.compose corner mem_corner ofBodies_pair)
  exact .step hComposed (.makeState _ List.mem_cons_self)

end Workspace

end Elastodynamics
