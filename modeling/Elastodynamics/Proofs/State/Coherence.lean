import Elastodynamics.Proofs.Model.Structure
import Elastodynamics.Proofs.State.Slots
/-!
Coherent contents. What a state of a model holds is coherent if every filled slot goes with the
present motion: the data of elements are those of the present motion, there is one coherent state
for each body, and where the slot of a partition is filled this partition of every body is the piece
of the whole one. New contents are coherent, and every write and every evaluation of a slot keeps
them so.
-/
namespace Elastodynamics

variable {α : Type} [Scalar α] [ElementFamily α]

namespace TypedModel

variable {κ : Kind α}

/-- The data of all elements in a motion. -/
def dataAt (m : TypedModel α κ) (x : Motion α) : Value α :=
  .elements κ (m.elements.toList.map fun e => (kind κ).dataAt e x)

/-- The data of all elements depend on the partitions only that are declared for their kind. -/
theorem dataAt_congr (m : TypedModel α κ) {x x' : Motion α}
    (h : ∀ p, (kind κ).dependencies.has p = true → x.get p = x'.get p) :
    m.dataAt x = m.dataAt x' :=
  congrArg (Value.elements κ) (List.map_congr_left fun e _ => (kind κ).dataAt_congr e h)

/-- What the contents of a state of a model of elements must satisfy. -/
structure Coherent (m : TypedModel α κ) (memo : Memo α (Value α)) : Prop where
  sized : memo.motion.Sized (3 * m.referencePositions.size)
  length : memo.slots.length = 1
  data : ∀ v, memo.slot? 0 = some v → v = m.dataAt memo.motion

end TypedModel

/-- The slot for the fact that a partition has been copied to the bodies. -/
def syncSlot : Partition → Nat
  | .positions => 1
  | .velocities => 2
  | .accelerations => 3

theorem syncSlot_ne_zero (p : Partition) : syncSlot p ≠ 0 := by
  cases p <;> exact nofun

theorem syncSlot_lt (p : Partition) : syncSlot p < 4 := by
  cases p <;> decide

/-- The slots of a composite model are the one of the bodies and those of the partitions. -/
theorem eq_zero_or_syncSlot {i : Nat} (h : i < 4) : i = 0 ∨ ∃ p, i = syncSlot p := by
  rcases (by omega : i = 0 ∨ i = 1 ∨ i = 2 ∨ i = 3) with rfl | rfl | rfl | rfl
  · exact .inl rfl
  · exact .inr ⟨.positions, rfl⟩
  · exact .inr ⟨.velocities, rfl⟩
  · exact .inr ⟨.accelerations, rfl⟩

theorem syncSlot_inj {p q : Partition} : syncSlot p = syncSlot q ↔ p = q := by
  cases p <;> cases q <;> decide

/-- Whether a partition has been copied to the bodies since it was last written. -/
def Memo.synced (memo : Memo α (Value α)) (p : Partition) : Bool := memo.isFilled (syncSlot p)

/-- What the contents of a state of a composite model with `n` degrees of freedom must satisfy, if
`Good` says which states the bodies may have, given the partitions that have been copied to them and
the motion of the whole. -/
structure Memo.HoldsBodies (memo : Memo α (Value α)) (n : Nat)
    (Good : (Partition → Bool) → Motion α → List (Contents α (Value α)) → Prop) : Prop where
  sized : memo.motion.Sized n
  length : memo.slots.length = 4
  bodies : ∀ v, memo.slot? 0 = some v → ∃ states, v = .bodies states ∧
    Good memo.synced memo.motion states
  performed : ∀ p v, memo.slot? (syncSlot p) = some v → v = .performed ∧ memo.isFilled 0 = true

namespace Model

mutual

/-- What the contents of a state of a model must satisfy. -/
def Coherent : Model α → Memo α (Value α) → Prop
  | typed m, memo => m.Coherent memo
  | composite _ _ bodies, memo => memo.HoldsBodies (3 * totalNodes bodies) (CoherentAll bodies)

/-- What the states of bodies must satisfy: there is one for each body, it is coherent, and it has
the piece of the motion `x` in each of the partitions in `synced`. -/
def CoherentAll : List (Model α) → (Partition → Bool) → Motion α → List (Contents α (Value α)) →
    Prop
  | [], _, _, states => states = []
  | b :: bodies, synced, x, states => ∃ c rest, states = c :: rest ∧ c.owner = b.systemId ∧
      b.Coherent c.memo ∧ (∀ p, synced p = true → c.memo.motion.get p = (x.take b.numDofs).get p) ∧
      CoherentAll bodies synced (x.drop b.numDofs) rest

end

theorem coherent_typed {κ : Kind α} {m : TypedModel α κ} {memo : Memo α (Value α)} :
    (typed m).Coherent memo ↔ m.Coherent memo := by
  rw [Coherent]

theorem coherent_composite {id : SystemId} {P : Sparse.Pattern} {bodies : List (Model α)}
    {memo : Memo α (Value α)} : (composite id P bodies).Coherent memo ↔
      memo.HoldsBodies (3 * totalNodes bodies) (CoherentAll bodies) := by
  rw [Coherent]

variable {bodies : List (Model α)} {synced synced' : Partition → Bool} {x x' : Motion α}
  {states : List (Contents α (Value α))}

theorem coherentAll_nil : CoherentAll [] synced x states ↔ states = [] := by
  rw [CoherentAll]

theorem coherentAll_cons {b : Model α} : CoherentAll (b :: bodies) synced x states ↔
    ∃ c rest, states = c :: rest ∧ c.owner = b.systemId ∧ b.Coherent c.memo ∧
      (∀ p, synced p = true → c.memo.motion.get p = (x.take b.numDofs).get p) ∧
      CoherentAll bodies synced (x.drop b.numDofs) rest := by
  rw [CoherentAll]

/-- The states of bodies satisfy less if fewer partitions have been copied to them, and of the
motion only these partitions matter. -/
theorem CoherentAll.mono (h : CoherentAll bodies synced x states)
    (hWeaker : ∀ p, synced' p = true → synced p = true ∧ x'.get p = x.get p) :
    CoherentAll bodies synced' x' states := by
  induction bodies generalizing x x' states with
  | nil => exact h
  | cons b bodies ih =>
      obtain ⟨c, rest, rfl, hOwner, hBody, hSynced, hRest⟩ := coherentAll_cons.mp h
      refine coherentAll_cons.mpr
        ⟨c, rest, rfl, hOwner, hBody, fun p hp => ?_, ih hRest fun p hp => ?_⟩
      · obtain ⟨hOld, hSame⟩ := hWeaker p hp
        rw [hSynced p hOld, Motion.get_take, Motion.get_take, hSame]
      · obtain ⟨hOld, hSame⟩ := hWeaker p hp
        rw [Motion.get_drop, Motion.get_drop, hSame]
        exact ⟨hOld, rfl⟩

/-- What holds of the state at one place of a list of states of bodies. -/
theorem CoherentAll.getElem? (first : Nat) {k : Nat}
    (h : CoherentAll bodies synced (x.drop (3 * first)) states)
    {b : Model α} (hBody : bodies[k]? = some b) {c : Contents α (Value α)}
    (hState : states[k]? = some c) : ∃ offset, (nodeOffsets first bodies)[k]? = some offset ∧
      c.owner = b.systemId ∧ b.Coherent c.memo ∧ ∀ p, synced p = true →
        c.memo.motion.get p = (x.get p).extract (3 * offset) (3 * offset + b.numDofs) := by
  induction bodies generalizing first states k with
  | nil => cases hBody
  | cons b' bodies ih =>
      obtain ⟨c', rest, rfl, hOwner, hCoherent, hSynced, hRest⟩ := coherentAll_cons.mp h
      rw [nodeOffsets]
      cases k with
      | zero =>
          cases hBody
          cases hState
          refine ⟨first, rfl, hOwner, hCoherent, fun p hp => ?_⟩
          rw [hSynced p hp, Motion.get_take_drop]
      | succ k =>
          rw [Motion.drop_drop, numDofs, ← Nat.mul_add] at hRest
          exact ih (first + b'.numNodes) hRest hBody hState

theorem CoherentAll.length_eq (h : CoherentAll bodies synced x states) :
    states.length = bodies.length := by
  induction bodies generalizing x states with
  | nil =>
      rw [coherentAll_nil.mp h]
      rfl
  | cons b bodies ih =>
      obtain ⟨c, rest, rfl, _, _, _, hRest⟩ := coherentAll_cons.mp h
      rw [List.length_cons, List.length_cons, ih hRest]

/-! ### New contents -/

theorem Coherent.sized {m : Model α} {memo : Memo α (Value α)} (h : m.Coherent memo) :
    memo.motion.Sized m.numDofs := by
  cases m with
  | typed m => exact (coherent_typed.mp h).sized
  | composite id P bodies => exact (coherent_composite.mp h).sized

theorem dependencies_typed {κ : Kind α} (m : TypedModel α κ) :
    (typed m).system.dependencies = [(kind κ).dependencies] := by
  rw [system]
  rfl

theorem dependencies_composite (id : SystemId) (P : Sparse.Pattern) (bodies : List (Model α)) :
    (composite id P bodies).system.dependencies =
      [.none, .single .positions, .single .velocities, .single .accelerations] := by
  rw [system]
  rfl

/-- A motion without any computed values is coherent. -/
theorem coherent_fresh (m : Model α) {motion : Motion α} (hSized : motion.Sized m.numDofs) :
    m.Coherent (.fresh motion m.system.entries.length) := by
  cases m with
  | typed m =>
      refine coherent_typed.mpr ⟨hSized, ?_, fun v hv => ?_⟩
      · rw [system]
        rfl
      · rw [Memo.slot?_fresh] at hv
        cases hv
  | composite id P bodies =>
      refine coherent_composite.mpr ⟨hSized, ?_, fun v hv => ?_, fun p v hv => ?_⟩
      · rw [system]
        rfl
      · rw [Memo.slot?_fresh] at hv
        cases hv
      · rw [Memo.slot?_fresh] at hv
        cases hv

/-- The contents of a new state are coherent. -/
theorem coherent_initial (m : Model α) : m.Coherent m.system.initial := by
  have hSized : (Motion.atRest m.system.referencePositions).Sized m.numDofs := by
    rw [← numDofs_system]
    exact Motion.sized_atRest _
  exact coherent_fresh m hSized

theorem coherentAll_initial (bodies : List (Model α)) (x : Motion α) :
    CoherentAll bodies (fun _ => false) x ((systems bodies).map System.contents) := by
  induction bodies generalizing x with
  | nil => exact coherentAll_nil.mpr (by rw [systems]; rfl)
  | cons b bodies ih =>
      refine coherentAll_cons.mpr
        ⟨b.system.contents, (systems bodies).map System.contents, ?_, ?_, ?_, fun p hp => ?_, ih _⟩
      · rw [systems]
        rfl
      · exact b.id_system
      · exact b.coherent_initial
      · cases hp

/-! ### Writes -/

variable {memo : Memo α (Value α)} {motion : Motion α} {changed : Dependencies}

/-- The data of elements are kept if the partitions are that they depend on. -/
theorem coherent_invalidate_typed {κ : Kind α} {m : TypedModel α κ} (h : m.Coherent memo)
    (hSized : motion.Sized (3 * m.referencePositions.size))
    (hSame : ∀ p, changed.has p = false → motion.get p = memo.motion.get p) :
    m.Coherent (Memo.invalidate { memo with motion } [(kind κ).dependencies] changed) := by
  refine ⟨hSized, ?_, fun v hv => ?_⟩
  · rw [Memo.length_invalidate]
    exact h.length
  · rw [Memo.slot?_invalidate] at hv
    cases hChanged : (kind κ).dependencies.intersects changed with
    | true => simp [hChanged] at hv
    | false =>
        simp only [List.getElem?_cons_zero, Option.any_some, hChanged, Bool.false_eq_true,
          if_false] at hv
        rw [h.data v hv]
        refine m.dataAt_congr fun p hp => (hSame p ?_).symm
        exact Dependencies.has_eq_false_of_not_intersects hChanged hp

/-- The states of bodies are always kept, and the slot of a partition is if the partition is. -/
theorem holdsBodies_invalidate {n : Nat} (h : memo.HoldsBodies n (CoherentAll bodies))
    (hSized : motion.Sized n)
    (hSame : ∀ p, changed.has p = false → motion.get p = memo.motion.get p) :
    (Memo.invalidate { memo with motion }
      [.none, .single .positions, .single .velocities, .single .accelerations]
      changed).HoldsBodies n (CoherentAll bodies) := by
  have hHeld : (Memo.invalidate { memo with motion }
      [.none, .single .positions, .single .velocities, .single .accelerations]
      changed).slot? 0 = memo.slot? 0 := by
    rw [Memo.slot?_invalidate]
    rfl
  have hSync (p : Partition) : (Memo.invalidate { memo with motion }
      [.none, .single .positions, .single .velocities, .single .accelerations]
      changed).slot? (syncSlot p) =
        if changed.has p then none else memo.slot? (syncSlot p) := by
    rw [Memo.slot?_invalidate, ← Dependencies.single_intersects]
    cases p <;> rfl
  refine ⟨hSized, ?_, fun v hv => ?_, fun p v hv => ?_⟩
  · rw [Memo.length_invalidate]
    exact h.length
  · rw [hHeld] at hv
    obtain ⟨states, rfl, hStates⟩ := h.bodies v hv
    refine ⟨states, rfl, hStates.mono fun p hp => ?_⟩
    rw [Memo.synced, Memo.isFilled, hSync] at hp
    cases hChanged : changed.has p with
    | true =>
        rw [hChanged] at hp
        cases hp
    | false =>
        rw [hChanged] at hp
        exact ⟨hp, hSame p hChanged⟩
  · rw [hSync] at hv
    split at hv
    · cases hv
    · obtain ⟨hValue, hFilled⟩ := h.performed p v hv
      refine ⟨hValue, ?_⟩
      rw [Memo.isFilled, hHeld]
      exact hFilled

/-- Contents stay coherent if the slots are emptied that depend on the given partitions, even if
these partitions have changed. -/
theorem Coherent.invalidate_changed {m : Model α} (h : m.Coherent memo)
    (hSized : motion.Sized m.numDofs)
    (hSame : ∀ p, changed.has p = false → motion.get p = memo.motion.get p) :
    m.Coherent (Memo.invalidate { memo with motion } m.system.dependencies changed) := by
  cases m with
  | typed m =>
      rw [dependencies_typed]
      exact coherent_typed.mpr (coherent_invalidate_typed (coherent_typed.mp h) hSized hSame)
  | composite id P bodies =>
      rw [dependencies_composite]
      exact coherent_composite.mpr
        (holdsBodies_invalidate (coherent_composite.mp h) hSized hSame)

theorem Coherent.invalidate {m : Model α} (h : m.Coherent memo) (changed : Dependencies) :
    m.Coherent (memo.invalidate m.system.dependencies changed) :=
  h.invalidate_changed h.sized fun _ _ => rfl

/-- Writing a partition of the right size keeps contents coherent. -/
theorem Coherent.write {m : Model α} (h : m.Coherent memo) (p : Partition) {y : Array α}
    (hy : y.size = m.numDofs) : m.Coherent (memo.write m.system.dependencies p y) := by
  refine h.invalidate_changed (h.sized.set hy) fun q hq => ?_
  rw [Dependencies.has_single, decide_eq_false_iff_not] at hq
  rw [Motion.get_set, if_neg hq]

end Model

end Elastodynamics
