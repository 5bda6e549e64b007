import Elastodynamics.Proofs.Workspace.History
/-!
Which systems the models and the states of a program have. Systems are numbered in the order in
which they are made. A model keeps its place and its system until it is built again, and a copy has
the system of its original. So two models, or a model and a state, have systems with the same
identity exactly if the history of the program says so.
-/
namespace Elastodynamics

open Event

variable {α : Type} [Scalar α] [ElementFamily α]

namespace Program

variable {P Q : Program α} {e : Event} {h : List Event} {i j : Nat}

/-! ### What every run keeps -/

theorem Steps.consistent (hRun : Run h P) : ∀ m ∈ P.models, m.Consistent := by
  induction hRun with
  | refl => exact nofun
  | @step e h P Q prior last ih =>
      intro m hm
      cases last with
      | newModel κ config =>
          rcases List.mem_append.mp hm with hm | hm
          · exact ih m hm
          · rw [List.mem_singleton.mp hm]
            exact StoredModel.consistent_ofConfig config P.ids
      | @build k κ m₀ hModel commands hCommands hBuild =>
          rcases List.mem_or_eq_of_mem_set hm with hm | rfl
          · exact ih m hm
          · have hOld : m₀.Consistent := ih _ (List.mem_of_getElem? hModel)
            exact hOld.session commands P.ids
      | @drop k κ m₀ hModel commands hCommands hOpen =>
          rcases List.mem_or_eq_of_mem_set hm with hm | rfl
          · exact ih m hm
          · have hOld : m₀.Consistent := ih _ (List.mem_of_getElem? hModel)
            exact hOld.session commands P.ids
      | cloneModel hModel =>
          rcases List.mem_append.mp hm with hm | hm
          · exact ih m hm
          · rw [List.mem_singleton.mp hm]
            exact ih _ (List.mem_of_getElem? hModel)
      | compose hBodies hResult =>
          rcases List.mem_append.mp hm with hm | hm
          · exact ih m hm
          · rw [List.mem_singleton.mp hm]
            trivial
      | declareState => exact ih m hm
      | makeState => exact ih m hm
      | cloneState => exact ih m hm
      | operate => exact ih m hm

/-- A dropped builder leaves the program as it was. -/
theorem drop_eq (hConsistent : ∀ m ∈ P.models, m.Consistent) {k : Nat} {κ : Kind α}
    {m : StoredModel α κ} (hModel : P.models[k]? = some (.typed m))
    {commands : List (Command α κ)} (hOpen : .build ∉ commands) :
    { P with
      ids := (m.session commands P.ids).2
      models := P.models.set k (.typed (m.session commands P.ids).1) } = P := by
  have hm : m.Consistent := hConsistent _ (List.mem_of_getElem? hModel)
  obtain ⟨hk, hGet⟩ := List.getElem?_eq_some_iff.mp hModel
  rw [(hm.session_eq commands P.ids).1 hOpen, ← hGet, List.set_getElem_self]

theorem ofBodies_eq_ok {bodies : List (Model α)} {ids ids' : IdSupply} {m : Model α}
    (hResult : Model.ofBodies bodies ids = (.ok m, ids')) :
    m.system.id = ids.fresh.1 ∧ ids' = ids.fresh.2 := by
  rw [Model.ofBodies] at hResult
  split at hResult
  · cases hResult
  · cases hResult
    rw [Model.id_system]
    exact ⟨rfl, rfl⟩

/-- Systems are numbered from zero on in the order in which they are made. -/
theorem Steps.numbered (hRun : Run h P) :
    P.systems.map (fun s => s.id.index) = List.range P.ids.next := by
  induction hRun with
  | refl => rfl
  | @step e h P Q prior last ih =>
      cases last with
      | newModel κ config =>
          show (P.systems ++ [_, _]).map _ = List.range (P.ids.next + 1 + 1)
          rw [List.map_append, ih, List.range_succ, List.range_succ, List.append_assoc]
          rfl
      | @build k κ m hModel commands hCommands hBuild =>
          have hm : m.Consistent := prior.consistent _ (List.mem_of_getElem? hModel)
          obtain ⟨hId, hIds⟩ := (hm.session_eq commands P.ids).2 hBuild
          simp [ih, hId, hIds, IdSupply.fresh, List.range_succ]
      | drop hModel hCommands hOpen =>
          rw [drop_eq prior.consistent hModel hOpen]
          exact ih
      | cloneModel hModel => exact ih
      | compose hBodies hResult =>
          obtain ⟨hId, hIds⟩ := ofBodies_eq_ok hResult
          simp [ih, hId, hIds, IdSupply.fresh, List.range_succ]
      | declareState referencePositions entries =>
          simp [ih, IdSupply.fresh, List.range_succ]
      | makeState hModel => exact ih
      | cloneState hState => exact ih
      | operate hState op hModel => exact ih

/-- Every system that a model or a state has is among those that have been made. -/
theorem Steps.listed (hRun : Run h P) :
    (∀ m ∈ P.models, m.stateSystem ∈ P.systems) ∧ ∀ s ∈ P.states, s.system ∈ P.systems := by
  induction hRun with
  | refl => exact ⟨nofun, nofun⟩
  | @step e h P Q prior last ih =>
      obtain ⟨hModels, hStates⟩ := ih
      cases last with
      | newModel κ config =>
          refine ⟨fun m hm => ?_, fun s hs => List.mem_append_left _ (hStates s hs)⟩
          rcases List.mem_append.mp hm with hm | hm
          · exact List.mem_append_left _ (hModels m hm)
          · rw [List.mem_singleton.mp hm]
            simp [Held.stateSystem]
      | build hModel hCommands hBuild =>
          refine ⟨fun m hm => ?_, fun s hs => List.mem_append_left _ (hStates s hs)⟩
          rcases List.mem_or_eq_of_mem_set hm with hm | rfl
          · exact List.mem_append_left _ (hModels m hm)
          · simp [Held.stateSystem]
      | drop hModel hCommands hOpen =>
          rw [drop_eq prior.consistent hModel hOpen]
          exact ⟨hModels, hStates⟩
      | cloneModel hModel =>
          refine ⟨fun m hm => ?_, hStates⟩
          rcases List.mem_append.mp hm with hm | hm
          · exact hModels m hm
          · rw [List.mem_singleton.mp hm]
            exact hModels _ (List.mem_of_getElem? hModel)
      | compose hBodies hResult =>
          refine ⟨fun m hm => ?_, fun s hs => List.mem_append_left _ (hStates s hs)⟩
          rcases List.mem_append.mp hm with hm | hm
          · exact List.mem_append_left _ (hModels m hm)
          · rw [List.mem_singleton.mp hm]
            simp [Held.stateSystem]
      | declareState referencePositions entries =>
          refine ⟨fun m hm => List.mem_append_left _ (hModels m hm), fun s hs => ?_⟩
          rcases List.mem_append.mp hs with hs | hs
          · exact List.mem_append_left _ (hStates s hs)
          · rw [List.mem_singleton.mp hs]
            simp [State.ofSystem]
      | makeState hModel =>
          refine ⟨hModels, fun s hs => ?_⟩
          rcases List.mem_append.mp hs with hs | hs
          · exact hStates s hs
          · rw [List.mem_singleton.mp hs]
            exact hModels _ (List.mem_of_getElem? hModel)
      | @cloneState j s₀ hState =>
          refine ⟨hModels, fun s hs => ?_⟩
          rcases List.mem_append.mp hs with hs | hs
          · exact hStates s hs
          · rw [List.mem_singleton.mp hs]
            exact hStates s₀ (List.mem_of_getElem? hState)
      | @operate j s₀ hState op hModel =>
          refine ⟨hModels, fun s hs => ?_⟩
          rcases List.mem_or_eq_of_mem_set hs with hs | rfl
          · exact hStates s hs
          · rw [op.system_apply]
            exact hStates _ (List.mem_of_getElem? hState)

/-- Places are taken one after the other. -/
theorem Steps.counts (hRun : Run h P) :
    P.models.length = modelCount h ∧ P.states.length = stateCount h := by
  induction hRun with
  | refl => exact ⟨rfl, rfl⟩
  | @step e h P Q prior last ih =>
      obtain ⟨hModels, hStates⟩ := ih
      cases last <;> simp [modelCount, stateCount, hModels, hStates]

/-- A program is a workspace of which only the present models and states are kept. -/
theorem Steps.workspace (hRun : Run h P) : ∃ W : Workspace α, W.Reachable ∧ W.ids = P.ids ∧
    (∀ m ∈ P.models, m.toModel ∈ W.models) ∧ ∀ s ∈ P.states, s ∈ W.states := by
  induction hRun with
  | refl => exact ⟨_, .start ⟨0⟩, rfl, nofun, nofun⟩
  | @step e h P Q prior last ih =>
      obtain ⟨W, hW, hIds, hModels, hStates⟩ := ih
      cases last with
      | newModel κ config =>
          refine ⟨_, hW.step (.newModel W κ config), by rw [hIds]; rfl, fun m hm => ?_, hStates⟩
          rcases List.mem_append.mp hm with hm | hm
          · exact List.mem_cons_of_mem _ (hModels m hm)
          · rw [List.mem_singleton.mp hm, hIds]
            exact List.mem_cons_self
      | @build k κ m hModel commands hCommands hBuild =>
          have hMem := hModels _ (List.mem_of_getElem? hModel)
          have hSession := m.toModel_session commands P.ids
          have hNew : (m.session commands P.ids).1.toModel =
              (m.toModel.session commands P.ids).1 := congrArg Prod.fst hSession
          refine ⟨_, hW.step (.session W hMem hCommands), ?_, fun m' hm' => ?_, hStates⟩
          · rw [hIds]
            exact (congrArg Prod.snd hSession).symm
          · rcases List.mem_or_eq_of_mem_set hm' with hm' | rfl
            · exact List.mem_cons_of_mem _ (hModels m' hm')
            · rw [Held.toModel, hNew, hIds]
              exact List.mem_cons_self
      | drop hModel hCommands hOpen =>
          rw [drop_eq prior.consistent hModel hOpen]
          exact ⟨W, hW, hIds, hModels, hStates⟩
      | cloneModel hModel =>
          refine ⟨W, hW, hIds, fun m hm => ?_, hStates⟩
          rcases List.mem_append.mp hm with hm | hm
          · exact hModels m hm
          · rw [List.mem_singleton.mp hm]
            exact hModels _ (List.mem_of_getElem? hModel)
      | @compose bodies hBodies m ids hResult =>
          have hMem : ∀ b ∈ bodies.map Held.toModel, b ∈ W.models := by
            intro b hb
            obtain ⟨held, hHeld, rfl⟩ := List.mem_map.mp hb
            exact hModels held (hBodies held hHeld)
          rw [← hIds] at hResult
          refine ⟨_, hW.step (.compose W hMem hResult), rfl, fun m' hm' => ?_, hStates⟩
          rcases List.mem_append.mp hm' with hm' | hm'
          · exact List.mem_cons_of_mem _ (hModels m' hm')
          · rw [List.mem_singleton.mp hm']
            exact List.mem_cons_self
      | declareState referencePositions entries =>
          refine ⟨_, hW.step (.declare W referencePositions entries), by rw [hIds], hModels,
            fun s hs => ?_⟩
          rcases List.mem_append.mp hs with hs | hs
          · exact List.mem_cons_of_mem _ (hStates s hs)
          · rw [List.mem_singleton.mp hs, hIds]
            exact List.mem_cons_self
      | @makeState k m hModel =>
          have hMem := List.mem_of_getElem? hModel
          refine ⟨_, hW.step (.makeState W (hModels m hMem)), hIds, hModels, fun s hs => ?_⟩
          rcases List.mem_append.mp hs with hs | hs
          · exact List.mem_cons_of_mem _ (hStates s hs)
          · rw [List.mem_singleton.mp hs, ← (prior.consistent m hMem).system_toModel]
            exact List.mem_cons_self
      | @cloneState j s hState =>
          have hNone : ∀ m, Operation.clone.model? = some m → m ∈ W.models := by
            simp [Operation.model?]
          refine ⟨_, hW.step (.operate W (hStates s (List.mem_of_getElem? hState)) .clone hNone),
            hIds, hModels, fun s' hs' => ?_⟩
          rcases List.mem_append.mp hs' with hs' | hs'
          · exact List.mem_cons_of_mem _ (hStates s' hs')
          · rw [List.mem_singleton.mp hs']
            exact List.mem_cons_self
      | @operate j s hState op hModel =>
          have hMem := hStates s (List.mem_of_getElem? hState)
          refine ⟨_, hW.step (.operate W hMem op fun m hm => ?_), hIds, hModels, fun s' hs' => ?_⟩
          · obtain ⟨held, hHeld, rfl⟩ := hModel m hm
            exact hModels held hHeld
          · rcases List.mem_or_eq_of_mem_set hs' with hs' | rfl
            · exact List.mem_cons_of_mem _ (hStates s' hs')
            · exact List.mem_cons_self

/-- No system has an identity that has not been given out. -/
theorem Steps.lt_next (hRun : Run h P) {s : System α} (hs : s ∈ P.systems) :
    s.id.index < P.ids.next := by
  rw [← List.mem_range, ← hRun.numbered]
  exact List.mem_map_of_mem hs

/-! ### Where a model and a state come from -/

private theorem of_getElem?_concat {β : Type} {l : List β} {x y : β}
    (h : (l ++ [x])[i]? = some y) : l[i]? = some y ∨ i = l.length ∧ y = x := by
  rcases lt_trichotomy i l.length with hi | rfl | hi
  · rw [List.getElem?_append_left hi] at h
    exact .inl h
  · simp at h
    exact .inr ⟨rfl, h.symm⟩
  · rw [List.getElem?_eq_none (by simp; omega)] at h
    cases h

/-- A model is at its place before a step already, or it is new and has a system of its own, or it
is a copy. -/
theorem Step.model_origin (hConsistent : ∀ m ∈ P.models, m.Consistent) (hStep : Step P e Q)
    {m : Held α} (hm : Q.models[i]? = some m) :
    (P.models[i]? = some m ∧ e ≠ .modelBuilt i) ∨
    (P.ids.next ≤ m.stateSystem.id.index ∧
      (e = .modelMade ∧ i = P.models.length ∨ e = .modelBuilt i)) ∨
    ∃ k, e = .modelCloned k ∧ i = P.models.length ∧ P.models[k]? = some m := by
  cases hStep with
  | newModel κ config =>
      rcases of_getElem?_concat hm with hm | ⟨hi, rfl⟩
      · exact .inl ⟨hm, nofun⟩
      · exact .inr (.inl ⟨Nat.le_succ _, .inl ⟨rfl, hi⟩⟩)
  | @build k κ m₀ hModel commands hCommands hBuild =>
      by_cases hk : k = i
      · subst hk
        have hOld : m₀.Consistent := hConsistent _ (List.mem_of_getElem? hModel)
        obtain ⟨hLt, _⟩ := List.getElem?_eq_some_iff.mp hModel
        rw [List.getElem?_set_self hLt] at hm
        cases hm
        refine .inr (.inl ⟨?_, .inr rfl⟩)
        rw [Held.stateSystem, ((hOld.session_eq commands P.ids).2 hBuild).1]
        exact Nat.le_refl _
      · rw [List.getElem?_set_ne hk] at hm
        refine .inl ⟨hm, fun h => hk ?_⟩
        cases h
        rfl
  | drop hModel hCommands hOpen =>
      rw [drop_eq hConsistent hModel hOpen] at hm
      exact .inl ⟨hm, nofun⟩
  | @cloneModel k κ m₀ hModel =>
      rcases of_getElem?_concat hm with hm | ⟨hi, rfl⟩
      · exact .inl ⟨hm, nofun⟩
      · exact .inr (.inr ⟨k, rfl, hi, hModel⟩)
  | compose hBodies hResult =>
      rcases of_getElem?_concat hm with hm | ⟨hi, rfl⟩
      · exact .inl ⟨hm, nofun⟩
      · refine .inr (.inl ⟨?_, .inl ⟨rfl, hi⟩⟩)
        rw [Held.stateSystem, (ofBodies_eq_ok hResult).1]
        exact Nat.le_refl _
  | declareState => exact .inl ⟨hm, nofun⟩
  | makeState => exact .inl ⟨hm, nofun⟩
  | cloneState => exact .inl ⟨hm, nofun⟩
  | operate => exact .inl ⟨hm, nofun⟩

/-- A state has the system that it had before a step, or it is new and has the system of a model, of
the state that it is a copy of, or one of its own. -/
theorem Step.state_origin (hStep : Step P e Q) {s : State α} (hs : Q.states[j]? = some s) :
    (∃ s₀, P.states[j]? = some s₀ ∧ s.system = s₀.system) ∨
    (e = .stateDeclared ∧ j = P.states.length ∧ P.ids.next ≤ s.system.id.index) ∨
    (∃ k m, e = .stateMade k ∧ j = P.states.length ∧ P.models[k]? = some m ∧
      s.system = m.stateSystem) ∨
    ∃ k s₀, e = .stateCloned k ∧ j = P.states.length ∧ P.states[k]? = some s₀ ∧
      s.system = s₀.system := by
  cases hStep with
  | newModel => exact .inl ⟨s, hs, rfl⟩
  | build => exact .inl ⟨s, hs, rfl⟩
  | drop => exact .inl ⟨s, hs, rfl⟩
  | cloneModel => exact .inl ⟨s, hs, rfl⟩
  | compose => exact .inl ⟨s, hs, rfl⟩
  | declareState referencePositions entries =>
      rcases of_getElem?_concat hs with hs | ⟨hj, rfl⟩
      · exact .inl ⟨s, hs, rfl⟩
      · exact .inr (.inl ⟨rfl, hj, Nat.le_refl _⟩)
  | @makeState k m hModel =>
      rcases of_getElem?_concat hs with hs | ⟨hj, rfl⟩
      · exact .inl ⟨s, hs, rfl⟩
      · exact .inr (.inr (.inl ⟨k, m, rfl, hj, hModel, rfl⟩))
  | @cloneState k s₀ hState =>
      rcases of_getElem?_concat hs with hs | ⟨hj, rfl⟩
      · exact .inl ⟨s, hs, rfl⟩
      · exact .inr (.inr (.inr ⟨k, s₀, rfl, hj, hState, rfl⟩))
  | @operate k s₀ hState op hModel =>
      by_cases hk : k = j
      · subst hk
        obtain ⟨hLt, _⟩ := List.getElem?_eq_some_iff.mp hState
        rw [List.getElem?_set_self hLt] at hs
        cases hs
        exact .inl ⟨s₀, hState, op.system_apply s₀⟩
      · rw [List.getElem?_set_ne hk] at hs
        exact .inl ⟨s, hs, rfl⟩

variable {m m' : Held α} {s : State α}

/-- A step that makes or builds no model leaves the models as they are. -/
theorem Step.model_of_ne (hConsistent : ∀ m ∈ P.models, m.Consistent) (hStep : Step P e Q)
    (hm : Q.models[i]? = some m) (hMade : e ≠ .modelMade) (hBuilt : e ≠ .modelBuilt i)
    (hCloned : ∀ k, e ≠ .modelCloned k) : P.models[i]? = some m := by
  rcases hStep.model_origin hConsistent hm with ⟨hOld, _⟩ | ⟨_, ⟨h, _⟩ | h⟩ | ⟨k, h, _⟩
  · exact hOld
  · exact absurd h hMade
  · exact absurd h hBuilt
  · exact absurd h (hCloned k)

/-- A model that exists and is not built stays the same. -/
theorem Steps.model_before (prior : Run h P) (last : Step P e Q) (hi : i < modelCount h)
    (hNot : e ≠ .modelBuilt i) (hm : Q.models[i]? = some m) : P.models[i]? = some m := by
  rw [← prior.counts.1] at hi
  rcases last.model_origin prior.consistent hm with hOld | ⟨_, hNew | hBuilt⟩ | ⟨k, _, hNew, _⟩
  · exact hOld.1
  · exact absurd hNew.2 hi.ne
  · exact absurd hBuilt hNot
  · exact absurd hNew hi.ne

theorem Steps.model_cloned (prior : Run h P) {k : Nat} (last : Step P (.modelCloned k) Q)
    (hm : Q.models[modelCount h]? = some m) : P.models[k]? = some m := by
  rw [← prior.counts.1] at hm
  rcases last.model_origin prior.consistent hm with hOld | ⟨_, hNew | hBuilt⟩ | ⟨k', hSame, _, hk⟩
  · rw [List.getElem?_eq_none (Nat.le_refl _)] at hOld
    cases hOld.1
  · cases hNew.1
  · cases hBuilt
  · cases hSame
    exact hk

theorem Steps.state_before (prior : Run h P) (last : Step P e Q) (hj : j < stateCount h)
    (hs : Q.states[j]? = some s) : ∃ s₀, P.states[j]? = some s₀ ∧ s.system = s₀.system := by
  rw [← prior.counts.2] at hj
  rcases last.state_origin hs with hOld | ⟨_, hNew, _⟩ | ⟨_, _, _, hNew, _⟩ | ⟨_, _, _, hNew, _⟩
  · exact hOld
  · exact absurd hNew hj.ne
  · exact absurd hNew hj.ne
  · exact absurd hNew hj.ne

theorem Steps.state_made (prior : Run h P) {k : Nat} (last : Step P (.stateMade k) Q)
    (hs : Q.states[stateCount h]? = some s) :
    ∃ m, P.models[k]? = some m ∧ s.system = m.stateSystem := by
  rw [← prior.counts.2] at hs
  rcases last.state_origin hs with
    ⟨s₀, hOld, _⟩ | ⟨hSame, _⟩ | ⟨_, m, hSame, _, hm⟩ | ⟨_, _, hSame, _⟩
  · rw [List.getElem?_eq_none (Nat.le_refl _)] at hOld
    cases hOld
  · cases hSame
  · cases hSame
    exact ⟨m, hm⟩
  · cases hSame

theorem Steps.state_cloned (prior : Run h P) {k : Nat} (last : Step P (.stateCloned k) Q)
    (hs : Q.states[stateCount h]? = some s) :
    ∃ s₀, P.states[k]? = some s₀ ∧ s.system = s₀.system := by
  rw [← prior.counts.2] at hs
  rcases last.state_origin hs with
    ⟨s₀, hOld, _⟩ | ⟨hSame, _⟩ | ⟨_, _, hSame, _⟩ | ⟨_, s₀, hSame, _, hs₀⟩
  · rw [List.getElem?_eq_none (Nat.le_refl _)] at hOld
    cases hOld
  · cases hSame
  · cases hSame
  · cases hSame
    exact ⟨s₀, hs₀⟩

/-! ### Histories and identities -/

/-- Models that share a system according to the history do so. -/
theorem Steps.system_of_shares (hShares : Shares h i j) (hRun : Run h P)
    (hm : P.models[i]? = some m) (hm' : P.models[j]? = some m') :
    m.stateSystem = m'.stateSystem := by
  induction hShares generalizing P m m' with
  | self hMade =>
      rw [hm] at hm'
      cases hm'
      rfl
  | kept prior hFirst hSecond ih =>
      cases hRun with
      | step before last =>
          exact ih before (before.model_before last prior.lt.1 hFirst hm)
            (before.model_before last prior.lt.2 hSecond hm')
  | toClone prior ih =>
      cases hRun with
      | step before last =>
          exact ih before (before.model_before last prior.lt.1 nofun hm)
            (before.model_cloned last hm')
  | fromClone prior ih =>
      cases hRun with
      | step before last =>
          exact ih before (before.model_cloned last hm)
            (before.model_before last prior.lt.2 nofun hm')

/-- A state that descends from a system according to the history has this system. -/
theorem Steps.system_of_descends (hDescends : Descends h j i) (hRun : Run h P)
    (hm : P.models[i]? = some m) (hs : P.states[j]? = some s) : s.system = m.stateSystem := by
  induction hDescends generalizing P m s with
  | made hShares =>
      cases hRun with
      | step before last =>
          obtain ⟨m₀, hm₀, hSystem⟩ := before.state_made last hs
          rw [hSystem]
          exact system_of_shares hShares before hm₀
            (before.model_before last hShares.lt.2 nofun hm)
  | kept prior hModel ih =>
      cases hRun with
      | step before last =>
          obtain ⟨s₀, hs₀, hSystem⟩ := before.state_before last prior.lt.1 hs
          rw [hSystem]
          exact ih before (before.model_before last prior.lt.2 hModel hm) hs₀
  | clonedState prior ih =>
      cases hRun with
      | step before last =>
          obtain ⟨s₀, hs₀, hSystem⟩ := before.state_cloned last hs
          rw [hSystem]
          exact ih before (before.model_before last prior.lt.2 nofun hm) hs₀
  | clonedModel prior ih =>
      cases hRun with
      | step before last =>
          obtain ⟨s₀, hs₀, hSystem⟩ := before.state_before last prior.lt.1 hs
          rw [hSystem]
          exact ih before (before.model_cloned last hm) hs₀

theorem Steps.model_lt (hRun : Run h P) (hm : P.models[i]? = some m) :
    i < modelCount h ∧ m.stateSystem.id.index < P.ids.next := by
  obtain ⟨hi, _⟩ := List.getElem?_eq_some_iff.mp hm
  rw [hRun.counts.1] at hi
  exact ⟨hi, hRun.lt_next (hRun.listed.1 m (List.mem_of_getElem? hm))⟩

/-- Models with the same identity share their system according to the history. -/
theorem Steps.shares_of_id (hRun : Run h P) (hm : P.models[i]? = some m)
    (hm' : P.models[j]? = some m') (hId : m.stateSystem.id = m'.stateSystem.id) :
    Shares h i j := by
  induction hRun generalizing i j m m' with
  | refl => cases hm
  | @step e h P Q prior last ih =>
      have hLt := (prior.step last).model_lt hm
      have hCount := prior.counts.1
      rcases last.model_origin prior.consistent hm with ⟨hOld, he⟩ | ⟨hNew, hAt⟩ | ⟨k, rfl, rfl, hk⟩
      · have hUsed := (prior.model_lt hOld).2
        rcases last.model_origin prior.consistent hm' with ⟨hOld', he'⟩ | ⟨hNew', _⟩ |
          ⟨k, rfl, rfl, hk⟩
        · exact .kept (ih hOld hOld' hId) he he'
        · rw [← hId] at hNew'
          omega
        · rw [hCount]
          exact .toClone (ih hOld hk hId)
      · rcases last.model_origin prior.consistent hm' with ⟨hOld', _⟩ | ⟨_, hAt'⟩ | ⟨k, rfl, _, _⟩
        · have hUsed' := (prior.model_lt hOld').2
          rw [hId] at hNew
          omega
        · have hSame : i = j := by
            rcases hAt with ⟨rfl, rfl⟩ | rfl
            · rcases hAt' with ⟨_, rfl⟩ | hBuilt
              · rfl
              · cases hBuilt
            · rcases hAt' with ⟨hMade, _⟩ | hBuilt
              · cases hMade
              · cases hBuilt
                rfl
          rw [← hSame]
          exact .self hLt.1
        · rcases hAt with ⟨hMade, _⟩ | hBuilt
          · cases hMade
          · cases hBuilt
      · rcases last.model_origin prior.consistent hm' with ⟨hOld', _⟩ | ⟨_, hMade | hBuilt⟩ |
          ⟨_, hSame, rfl, _⟩
        · rw [hCount]
          exact .fromClone (ih hk hOld' hId)
        · cases hMade.1
        · cases hBuilt
        · exact .self hLt.1

/-- A state with the identity of a model descends from the system of the model according to the
history. -/
theorem Steps.descends_of_id (hRun : Run h P) (hm : P.models[i]? = some m)
    (hs : P.states[j]? = some s) (hId : s.system.id = m.stateSystem.id) : Descends h j i := by
  induction hRun generalizing i j m s with
  | refl => cases hm
  | @step e h P Q prior last ih =>
      have hCount := prior.counts
      rcases last.state_origin hs with ⟨s₀, hOld, hSystem⟩ | ⟨rfl, _, hNew⟩ |
        ⟨k, m₀, rfl, rfl, hm₀, hSystem⟩ | ⟨k, s₀, rfl, rfl, hs₀, hSystem⟩
      · rw [hSystem] at hId
        have hUsed := prior.lt_next (prior.listed.2 s₀ (List.mem_of_getElem? hOld))
        rcases last.model_origin prior.consistent hm with ⟨hm, he⟩ | ⟨hNew, _⟩ | ⟨k, rfl, rfl, hk⟩
        · exact .kept (ih hm hOld hId) he
        · rw [← hId] at hNew
          omega
        · rw [hCount.1]
          exact .clonedModel (ih hk hOld hId)
      · have hm := last.model_of_ne prior.consistent hm nofun nofun nofun
        have hUsed := (prior.model_lt hm).2
        rw [hId] at hNew
        omega
      · have hm := last.model_of_ne prior.consistent hm nofun nofun nofun
        rw [hSystem] at hId
        rw [hCount.2]
        exact .made (prior.shares_of_id hm₀ hm hId)
      · have hm := last.model_of_ne prior.consistent hm nofun nofun nofun
        rw [hSystem] at hId
        rw [hCount.2]
        exact .clonedState (ih hm hs₀ hId)

/-- Until a model is built again, nothing that is done to copies of it, or to anything else, changes
it. -/
theorem Steps.model_kept {later : List Event} (hRun : Run h P) (hLater : Steps P later Q)
    (hm : P.models[i]? = some m) (hNot : .modelBuilt i ∉ later) : Q.models[i]? = some m := by
  induction hLater with
  | refl => exact hm
  | @step e later Q R prior last ih =>
      have hBefore := hRun.trans prior
      have hOld := ih fun h => hNot (List.mem_cons_of_mem _ h)
      have hi := (hBefore.model_lt hOld).1
      have hPlace : i < R.models.length := by
        rw [(hBefore.step last).counts.1]
        exact hi.trans_le (modelCount_le e _)
      have hNew := List.getElem?_eq_getElem hPlace
      have hSame := hBefore.model_before last hi (fun h => hNot (h ▸ List.mem_cons_self)) hNew
      rw [hNew, ← hSame, hOld]

end Program

end Elastodynamics
