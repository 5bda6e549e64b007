import Elastodynamics.Proofs.Workspace.Reachable
/-!
Slots are invisible in results. Whatever a program has done to a state of a model, an evaluation
gives what it would give in a new state with the same motion, errors included. Every filled slot, at
every depth of bodies, goes with the present motion.
-/
namespace Elastodynamics

open Model

variable {α : Type} [Scalar α] [ElementFamily α]

/-! ### New states with a given motion -/

/-- The state with every partition replaced by that of a motion, one after the other. -/
def State.withMotion (s : State α) (x : Motion α) : Except ModelError (State α) := do
  let s ← s.set .positions x.positions
  let s ← s.set .velocities x.velocities
  s.set .accelerations x.accelerations

/-- A new state of a model takes any motion of the right size. -/
theorem Model.makeState_withMotion (m : Model α) {x : Motion α} (hx : x.Sized m.numDofs) :
    ∃ f, m.makeState.withMotion x = .ok f ∧ f.system = m.system ∧ m.Coherent f.memo ∧
      f.motion = x := by
  obtain ⟨f₁, hSet₁, hSystem₁, h₁, hMotion₁⟩ :=
    State.set_of_coherent (s := m.makeState) rfl m.coherent_initial (hx .positions)
  obtain ⟨f₂, hSet₂, hSystem₂, h₂, hMotion₂⟩ :=
    State.set_of_coherent hSystem₁ h₁ (hx .velocities)
  obtain ⟨f₃, hSet₃, hSystem₃, h₃, hMotion₃⟩ :=
    State.set_of_coherent hSystem₂ h₂ (hx .accelerations)
  refine ⟨f₃, ?_, hSystem₃, h₃, ?_⟩
  · refine bind_eq_ok_iff.mpr ⟨f₁, hSet₁, ?_⟩
    exact bind_eq_ok_iff.mpr ⟨f₂, hSet₂, hSet₃⟩
  · rw [hMotion₃, hMotion₂, hMotion₁]
    rfl

/-! ### Results -/

namespace Model

variable {m : Model α} {s f : State α}

omit [Scalar α] in
/-- Two states with the same owner and the same motion pass the same checks. -/
theorem checkState_congr (hOwner : s.system.id = f.system.id) (hMotion : s.motion = f.motion)
    (operation : String) :
    m.checkState s.contents operation = m.checkState f.contents operation := by
  have hOwner' : s.contents.owner = f.contents.owner := hOwner
  have hMotion' : s.contents.memo.motion = f.contents.memo.motion := hMotion
  rw [checkState, checkState, hOwner', hMotion']

/-- Residuals of coherent states with the same motion are the same. -/
theorem calcResidual_congr (hs : m.Coherent s.memo) (hf : m.Coherent f.memo)
    (hOwner : s.system.id = f.system.id) (hMotion : s.motion = f.motion) (r : Array α) :
    (m.calcResidual s r).2 = (m.calcResidual f r).2 := by
  have hSame : m.checkResidual s.contents r = m.checkResidual f.contents r := by
    rw [checkResidual, checkResidual, checkState_congr hOwner hMotion]
  cases hCheck : m.checkResidual s.contents r with
  | error e =>
      rw [calcResidual, calcResidual, ← hSame, hCheck]
  | ok u =>
      obtain ⟨_, hEval, _⟩ := calcResidual_eq hs hCheck
      obtain ⟨_, hEval', _⟩ := calcResidual_eq hf (hSame.symm.trans hCheck)
      rw [hEval, hEval', hMotion]

/-- Tangent matrices of coherent states with the same motion are the same. -/
theorem calcTangent_congr (hm : m.WellFormed) (hs : m.Coherent s.memo) (hf : m.Coherent f.memo)
    (hOwner : s.system.id = f.system.id) (hMotion : s.motion = f.motion) (w : Weights α)
    (A : Sparse.BlockMatrix α) : (m.calcTangent s w A).2 = (m.calcTangent f w A).2 := by
  have hSame : m.checkTangent s.contents A = m.checkTangent f.contents A := by
    rw [checkTangent, checkTangent, checkState_congr hOwner hMotion]
  cases hCheck : m.checkTangent s.contents A with
  | error e =>
      rw [calcTangent, calcTangent, ← hSame, hCheck]
  | ok u =>
      obtain ⟨_, hEval, _⟩ := calcTangent_eq hm hs (w := w) hCheck
      obtain ⟨_, hEval', _⟩ := calcTangent_eq hm hf (w := w) (hSame.symm.trans hCheck)
      rw [hEval, hEval', hMotion]

/-- Energies of coherent states with the same motion are the same. -/
theorem calcEnergy_congr (hs : m.Coherent s.memo) (hf : m.Coherent f.memo)
    (hOwner : s.system.id = f.system.id) (hMotion : s.motion = f.motion) :
    (m.calcEnergy s).2 = (m.calcEnergy f).2 := by
  have hSame : m.checkEnergy s.contents = m.checkEnergy f.contents :=
    checkState_congr hOwner hMotion _
  cases hCheck : m.checkEnergy s.contents with
  | error e =>
      rw [calcEnergy, calcEnergy, ← hSame, hCheck]
  | ok u =>
      obtain ⟨_, hEval, _⟩ := calcEnergy_eq hs hCheck
      obtain ⟨_, hEval', _⟩ := calcEnergy_eq hf (hSame.symm.trans hCheck)
      rw [hEval, hEval', hMotion]

/-! ### Slots -/

/-- The second model is a part of the first one, and the second contents are those that the first
ones hold for it. -/
inductive Part (m : Model α) (memo : Memo α (Value α)) : Model α → Memo α (Value α) → Prop where
  | whole : Part m memo m memo
  | body {id : SystemId} {P : Sparse.Pattern} {bodies : List (Model α)} {held : Memo α (Value α)}
      {states : List (Contents α (Value α))} {k : Nat} {b : Model α} {c : Contents α (Value α)}
      (hWhole : Part m memo (.composite id P bodies) held)
      (hHeld : held.slot? 0 = some (.bodies states)) (hBody : bodies[k]? = some b)
      (hState : states[k]? = some c) : Part m memo b c.memo

/-- That every filled slot goes with the motion. -/
structure SlotsCurrent (m : Model α) (memo : Memo α (Value α)) : Prop where
  /-- A value is what its calculation gives in a copy of the state with all slots empty. -/
  value : ∀ i v, memo.slot? i = some v → (∀ states, v ≠ .bodies states) →
    ((State.mk m.system memo).clone.evalSlot i).1 = .ok v
  /-- The states of bodies are new ones, as their calculation gives them, that are changed in place:
  there is still one for each body, of the system of the body, and if the slot of a partition is
  filled, this partition of every body is its piece of the whole one. -/
  bodies : ∀ id P bodies states, m = .composite id P bodies → memo.slot? 0 = some (.bodies states) →
    ((State.mk m.system memo).clone.evalSlot 0).1 =
      .ok (.bodies (bodies.map fun b => b.makeState.contents)) ∧
    states.length = bodies.length ∧ ∀ (k : Nat) b c, bodies[k]? = some b → states[k]? = some c →
      ∃ offset, (nodeOffsets 0 bodies)[k]? = some offset ∧ c.owner = b.systemId ∧
        ∀ p, memo.isFilled (syncSlot p) = true → c.memo.motion.get p =
          (memo.motion.get p).extract (3 * offset) (3 * offset + b.numDofs)
  /-- The slot of a partition is only filled when there are states of the bodies. -/
  held : ∀ id P bodies p, m = .composite id P bodies → memo.isFilled (syncSlot p) = true →
    ∃ states, memo.slot? 0 = some (.bodies states)

theorem Part.coherent {b : Model α} {memo held : Memo α (Value α)} (h : m.Part memo b held)
    (hm : m.Coherent memo) : b.Coherent held := by
  induction h with
  | whole => exact hm
  | @body id P bodies held states k b c hWhole hHeld hBody hState ih =>
      obtain ⟨states', hStates', hCoherent⟩ := (coherent_composite.mp ih).bodies _ hHeld
      cases hStates'
      rw [← held.motion.drop_zero] at hCoherent
      obtain ⟨_, _, _, hBodyCoherent, _⟩ := hCoherent.getElem? 0 hBody hState
      exact hBodyCoherent

/-- The calculation of the states of bodies gives new ones. -/
theorem evalSlot_clone_composite {id : SystemId} {P : Sparse.Pattern} {bodies : List (Model α)}
    (memo : Memo α (Value α)) :
    ((State.mk (composite id P bodies).system memo).clone.evalSlot 0).1 =
      .ok (.bodies (bodies.map fun b => b.makeState.contents)) := by
  have hEntry : (composite id P bodies).system.entries[0]? =
      some (System.bodiesEntry (systems bodies)) := by
    rw [system]
    rfl
  have hNew : bodies.map (fun b => b.makeState.contents) =
      (systems bodies).map System.contents := by
    rw [systems_eq_map, List.map_map]
    rfl
  have hEmpty := Memo.slot?_fresh (ν := Value α) memo.motion
    (composite id P bodies).system.entries.length 0
  have hEval := Memo.evalWithin_done (composite id P bodies).system.entries.length hEntry hEmpty rfl
  rw [hNew]
  exact congrArg Prod.fst hEval

/-- In coherent contents every filled slot goes with the motion. -/
theorem Coherent.slotsCurrent {memo : Memo α (Value α)} (h : m.Coherent memo) :
    m.SlotsCurrent memo := by
  refine ⟨fun i v hSlot hValue => ?_, fun id P bodies states hm hHeld => ?_,
    fun id P bodies p hm hFilled => ?_⟩
  · have hFresh := m.coherent_fresh h.sized
    show ((Memo.fresh memo.motion m.system.entries.length).eval m.system.entries i).1 = .ok v
    have hLt := Memo.lt_of_slot? hSlot
    cases m with
    | typed m =>
        have hMemo := coherent_typed.mp h
        have hZero : i = 0 := by
          rw [hMemo.length] at hLt
          omega
        subst hZero
        obtain ⟨_, hEval, _⟩ := (coherent_typed.mp hFresh).eval
        rw [system] at hEval ⊢
        rw [hEval, hMemo.data v hSlot]
        rfl
    | composite id P bodies =>
        have hMemo := coherent_composite.mp h
        rw [hMemo.length] at hLt
        rcases eq_zero_or_syncSlot hLt with rfl | ⟨p, rfl⟩
        · obtain ⟨states, hStates, _⟩ := hMemo.bodies v hSlot
          exact absurd hStates (hValue states)
        · obtain ⟨_, hEval, _⟩ := (coherent_composite.mp hFresh).eval_sync id p
          rw [system] at hEval ⊢
          rw [hEval, (hMemo.performed p v hSlot).1]
  · subst hm
    obtain ⟨states', hStates', hCoherent⟩ := (coherent_composite.mp h).bodies _ hHeld
    cases hStates'
    refine ⟨evalSlot_clone_composite memo, hCoherent.length_eq, fun k b c hBody hState => ?_⟩
    rw [← memo.motion.drop_zero] at hCoherent
    obtain ⟨offset, hOffset, hOwner, _, hSynced⟩ := hCoherent.getElem? 0 hBody hState
    exact ⟨offset, hOffset, hOwner, hSynced⟩
  · subst hm
    have hMemo := coherent_composite.mp h
    obtain ⟨v, hv⟩ := Option.isSome_iff_exists.mp hFilled
    obtain ⟨w, hw⟩ := Option.isSome_iff_exists.mp (hMemo.performed p v hv).2
    obtain ⟨states, rfl, _⟩ := hMemo.bodies w hw
    exact ⟨states, hw⟩

end Model

/-! ### Programs -/

namespace Workspace

variable {W : Workspace α}

/-- Slots are invisible in the results of a program. A state of a model, after whatever operations,
gives the residuals, tangent matrices and energies, or the errors, of a new state of the model that
has been given the same motion; and in the contents of the state, and of the states of bodies that
it holds at any depth, every filled slot goes with the motion. -/
theorem calc_eq_calc_new (hW : W.Reachable) {m : Model α} (hm : m ∈ W.models) {s : State α}
    (hs : s ∈ W.states) (hOwner : s.system.id = m.systemId) :
    (∃ f, m.makeState.withMotion s.motion = .ok f ∧
      (∀ r, (m.calcResidual s r).2 = (m.calcResidual f r).2) ∧
      (∀ w A, (m.calcTangent s w A).2 = (m.calcTangent f w A).2) ∧
      (m.calcEnergy s).2 = (m.calcEnergy f).2) ∧
    ∀ b held, m.Part s.memo b held → b.SlotsCurrent held := by
  obtain ⟨hSystem, hCoherent⟩ := hW.sound.coherent m hm s hs hOwner
  obtain ⟨f, hNew, hSystem', hCoherent', hMotion⟩ := m.makeState_withMotion hCoherent.sized
  have hId : s.system.id = f.system.id := by rw [hSystem, hSystem']
  refine ⟨⟨f, hNew, fun r => ?_, fun w A => ?_, ?_⟩, fun b held hPart => ?_⟩
  · exact calcResidual_congr hCoherent hCoherent' hId hMotion.symm r
  · exact calcTangent_congr (hW.sound.wellFormed m hm) hCoherent hCoherent' hId hMotion.symm w A
  · exact calcEnergy_congr hCoherent hCoherent' hId hMotion.symm
  · exact (hPart.coherent hCoherent).slotsCurrent

/-- New positions that deform the tetrahedra. -/
def stretch : Operation ℚ := .modify .positions fun i x => x * (i + 1)

/-- The state of two bodies after its energy has been computed, which fills all slots of the state
and of its bodies, and its nodes have been moved, which empties one slot of the state and none of
its bodies. -/
def movedPair : State ℚ := stretch.apply ((Operation.calcEnergy pair).apply pair.makeState)

/-- The copies of velocities and accelerations in the bodies are still there, and the bodies hold
data of their old positions; all results are those of a new state at the new positions. -/
theorem calc_eq_calc_new_pair :
    [0, 1, 2, 3].map movedPair.isUpToDate = [true, false, true, true] ∧
    (∃ f, pair.makeState.withMotion movedPair.motion = .ok f ∧
      (∀ r, (pair.calcResidual movedPair r).2 = (pair.calcResidual f r).2) ∧
      (∀ w A, (pair.calcTangent movedPair w A).2 = (pair.calcTangent f w A).2) ∧
      (pair.calcEnergy movedPair).2 = (pair.calcEnergy f).2) ∧
    pair.SlotsCurrent movedPair.memo := by
  have hComputed := Reachable.step reachable_pair
    (.operate _ List.mem_cons_self (.calcEnergy pair) fun m hm => by
      cases hm
      exact List.mem_cons_self)
  have hMoved := Reachable.step hComputed (.operate _ List.mem_cons_self stretch nofun)
  have hOwner : movedPair.system.id = pair.systemId := by
    rw [movedPair, Operation.system_apply, Operation.system_apply]
    exact pair.id_system
  obtain ⟨hResults, hSlots⟩ := calc_eq_calc_new hMoved (m := pair) (s := movedPair)
    List.mem_cons_self List.mem_cons_self hOwner
  exact ⟨by decide +kernel, hResults, hSlots _ _ .whole⟩

end Workspace

end Elastodynamics
