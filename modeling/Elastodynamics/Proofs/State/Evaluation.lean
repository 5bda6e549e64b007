import Elastodynamics.Proofs.State.Coherence
/-!
Evaluation of slots in coherent contents. The data of elements are those of the present motion,
the states of bodies are brought up to date partition by partition, and the contents stay coherent.
-/
namespace Elastodynamics

open Model

variable {α : Type} [Scalar α] [ElementFamily α]

/-! ### Models of elements -/

/-- The slot of the data of elements always gives the data in the present motion. -/
theorem TypedModel.Coherent.eval {κ : Kind α} {m : TypedModel α κ} {memo : Memo α (Value α)}
    (h : m.Coherent memo) : ∃ memo',
      memo.eval m.system.entries 0 = (.ok (m.dataAt memo.motion), memo') ∧
      m.Coherent memo' ∧ memo'.motion = memo.motion := by
  have hEntry : m.system.entries[0]? = some (elementDataEntry m.elements.toList) := rfl
  cases hSlot : memo.slot? 0 with
  | some v =>
      rw [← h.data v hSlot]
      exact ⟨memo, Memo.evalWithin_filled _ hEntry hSlot, h, rfl⟩
  | none =>
      refine ⟨_, Memo.evalWithin_done _ hEntry hSlot rfl, ⟨h.sized, ?_, fun v hv => ?_⟩, rfl⟩
      · rw [Memo.length_fill]
        exact h.length
      · have hLength : 0 < (memo.start 0).slots.length := by
          have : (memo.start 0).slots.length = 1 := h.length
          omega
        rw [Memo.slot?_fill, if_pos ⟨rfl, hLength⟩] at hv
        cases hv
        rfl

/-! ### Models of bodies -/

variable {bodies : List (Model α)} {memo : Memo α (Value α)} {n : Nat}

namespace Memo.HoldsBodies

variable {states : List (Contents α (Value α))}

/-- The slot of the bodies may be filled with any states that go with the motion. This is no note
that a partition has been copied. -/
theorem fill_bodies (h : memo.HoldsBodies n (CoherentAll bodies))
    (hStates : CoherentAll bodies memo.synced memo.motion states) :
    (memo.fill 0 (.bodies states)).HoldsBodies n (CoherentAll bodies) ∧
      (memo.fill 0 (.bodies states)).slot? 0 = some (.bodies states) ∧
      (memo.fill 0 (.bodies states)).synced = memo.synced := by
  have hLength : 0 < memo.slots.length := by
    rw [h.length]
    decide
  have hHeld : (memo.fill 0 (.bodies states)).slot? 0 = some (.bodies states) := by
    rw [slot?_fill, if_pos ⟨rfl, hLength⟩]
  have hSync (p : Partition) :
      (memo.fill 0 (.bodies states)).slot? (syncSlot p) = memo.slot? (syncSlot p) := by
    rw [slot?_fill, if_neg fun h => syncSlot_ne_zero p h.1]
  have hSynced : (memo.fill 0 (.bodies states)).synced = memo.synced := by
    funext p
    rw [synced, synced, isFilled, isFilled, hSync]
  refine ⟨⟨h.sized, ?_, fun v hv => ?_, fun p v hv => ?_⟩, hHeld, hSynced⟩
  · rw [length_fill]
    exact h.length
  · rw [hHeld] at hv
    cases hv
    refine ⟨states, rfl, ?_⟩
    rw [hSynced]
    exact hStates
  · rw [hSync] at hv
    refine ⟨(h.performed p v hv).1, ?_⟩
    rw [isFilled, hHeld]
    rfl

/-- The slot of a partition may be filled when this partition has been copied to the bodies. -/
theorem fill_sync (h : memo.HoldsBodies n (CoherentAll bodies)) (p : Partition)
    (hHeld : memo.slot? 0 = some (.bodies states))
    (hStates : CoherentAll bodies (fun q => decide (q = p) || memo.synced q) memo.motion states) :
    (memo.fill (syncSlot p) .performed).HoldsBodies n (CoherentAll bodies) ∧
      ∀ q, (memo.fill (syncSlot p) .performed).synced q = (decide (q = p) || memo.synced q) := by
  have hLength : syncSlot p < memo.slots.length := by
    rw [h.length]
    exact syncSlot_lt p
  have hHeld' : (memo.fill (syncSlot p) .performed).slot? 0 = some (.bodies states) := by
    rw [slot?_fill, if_neg fun h => syncSlot_ne_zero p h.1.symm, hHeld]
  have hSync (q : Partition) : (memo.fill (syncSlot p) .performed).slot? (syncSlot q) =
      if q = p then some .performed else memo.slot? (syncSlot q) := by
    rw [slot?_fill]
    simp only [syncSlot_inj, hLength, and_true]
  have hSynced : (memo.fill (syncSlot p) .performed).synced =
      fun q => decide (q = p) || memo.synced q := by
    funext q
    rw [synced, isFilled, hSync]
    by_cases hq : q = p
    · simp [hq]
    · simp [hq, synced, isFilled]
  refine ⟨⟨h.sized, ?_, fun v hv => ?_, fun q v hv => ?_⟩, congrFun hSynced⟩
  · rw [length_fill]
    exact h.length
  · rw [hHeld'] at hv
    cases hv
    refine ⟨states, rfl, ?_⟩
    rw [hSynced]
    exact hStates
  · refine ⟨?_, ?_⟩
    · rw [hSync] at hv
      split at hv
      · cases hv
        rfl
      · exact (h.performed q v hv).1
    · rw [isFilled, hHeld']
      rfl

end Memo.HoldsBodies

/-- Copying a partition to the bodies makes it the piece of the whole one in each of them. -/
theorem Model.CoherentAll.distribute {synced : Partition → Bool} {x : Motion α}
    {states : List (Contents α (Value α))} (h : CoherentAll bodies synced x states)
    (hSized : x.Sized (3 * totalNodes bodies)) (p : Partition) :
    CoherentAll bodies (fun q => decide (q = p) || synced q) x
      (System.distribute p (systems bodies) (x.get p) states) := by
  induction bodies generalizing x states with
  | nil =>
      rw [coherentAll_nil.mp h, systems]
      exact coherentAll_nil.mpr rfl
  | cons b bodies ih =>
      obtain ⟨c, rest, rfl, hOwner, hBody, hSynced, hRest⟩ := coherentAll_cons.mp h
      have hSizes : x.Sized (b.numDofs + 3 * totalNodes bodies) := by
        rw [totalNodes, Nat.mul_add] at hSized
        exact hSized
      have hPiece : ((x.take b.numDofs).get p).size = b.numDofs := hSizes.take p
      rw [systems, System.distribute, numDofs_system, ← Motion.get_take, ← Motion.get_drop]
      refine coherentAll_cons.mpr
        ⟨_, _, rfl, hOwner, hBody.write p hPiece, fun q hq => ?_, ih hRest hSizes.drop⟩
      show (c.memo.motion.set p _).get q = _
      rw [Motion.get_set]
      by_cases hqp : q = p
      · rw [if_pos hqp, hqp]
      · rw [if_neg hqp]
        rw [decide_eq_false hqp, Bool.false_or] at hq
        exact hSynced q hq

namespace Memo.HoldsBodies

/-- The slot of the bodies always gives one state for each body. -/
theorem evalWithin_bodies (h : memo.HoldsBodies n (CoherentAll bodies)) (id : SystemId)
    (depth : Nat) : ∃ memo' states,
      evalWithin (System.ofBodies id (systems bodies)).entries (depth + 1) 0 memo =
        (.ok (.bodies states), memo') ∧
      memo'.HoldsBodies n (CoherentAll bodies) ∧ memo'.slot? 0 = some (.bodies states) ∧
      memo'.motion = memo.motion ∧ memo'.synced = memo.synced := by
  have hEntry : (System.ofBodies id (systems bodies)).entries[0]? =
      some (System.bodiesEntry (systems bodies)) := rfl
  cases hSlot : memo.slot? 0 with
  | some v =>
      obtain ⟨states, rfl, hStates⟩ := h.bodies v hSlot
      exact ⟨memo, states, evalWithin_filled depth hEntry hSlot, h, hSlot, rfl, rfl⟩
  | none =>
      have hEmpty (p : Partition) : memo.synced p = false := by
        cases hSynced : memo.slot? (syncSlot p) with
        | none => rw [synced, isFilled, hSynced]; rfl
        | some v =>
            have hFilled := (h.performed p v hSynced).2
            rw [isFilled, hSlot] at hFilled
            cases hFilled
      have hStart : (memo.start 0).HoldsBodies n (CoherentAll bodies) :=
        ⟨h.sized, h.length, h.bodies, h.performed⟩
      have hInitial : CoherentAll bodies (memo.start 0).synced (memo.start 0).motion
          ((systems bodies).map System.contents) := by
        refine (coherentAll_initial bodies memo.motion).mono fun p hp => ?_
        have hp' : memo.synced p = true := hp
        rw [hEmpty p] at hp'
        cases hp'
      obtain ⟨hFilled, hHeld, hSynced⟩ := hStart.fill_bodies hInitial
      exact ⟨_, _, evalWithin_done depth hEntry hSlot rfl, hFilled, hHeld, rfl, hSynced⟩

/-- The contents after a partition has been copied to the states of the bodies. -/
def copied (memo : Memo α (Value α)) (bodies : List (Model α)) (p : Partition)
    (states : List (Contents α (Value α))) : Memo α (Value α) :=
  (memo.fill 0 (.bodies (System.distribute p (systems bodies) (memo.motion.get p) states))).fill
    (syncSlot p) .performed

/-- A partition may be copied to the states of the bodies at any time. -/
theorem copy (h : memo.HoldsBodies (3 * totalNodes bodies) (CoherentAll bodies))
    {states : List (Contents α (Value α))} (hHeld : memo.slot? 0 = some (.bodies states))
    (p : Partition) :
    (copied memo bodies p states).HoldsBodies (3 * totalNodes bodies) (CoherentAll bodies) ∧
      ∀ q, (copied memo bodies p states).synced q = (decide (q = p) || memo.synced q) := by
  obtain ⟨states', hStates', hCoherent⟩ := h.bodies _ hHeld
  cases hStates'
  have hCopied := hCoherent.distribute h.sized p
  have hWeaker : ∀ q, memo.synced q = true → (decide (q = p) || memo.synced q) = true := by
    intro q hq
    rw [hq, Bool.or_true]
  obtain ⟨hFilled, hHeld', hSynced⟩ :=
    h.fill_bodies (hCopied.mono fun q hq => ⟨hWeaker q hq, rfl⟩)
  rw [← hSynced] at hCopied ⊢
  exact hFilled.fill_sync p hHeld' hCopied

/-- The evaluation of the empty slot of a partition evaluates the slot of the bodies first. -/
theorem eval_sync_of_none {id : SystemId} {p : Partition} {held : Memo α (Value α)}
    {states : List (Contents α (Value α))} (hSlot : memo.slot? (syncSlot p) = none)
    (hEval : evalWithin (System.ofBodies id (systems bodies)).entries (3 + 1) 0
      (memo.start (syncSlot p)) = (.ok (.bodies states), held))
    (hHeld : held.slot? 0 = some (.bodies states)) (hEmpty : held.synced p = false)
    (hMotion : held.motion = memo.motion) :
    memo.eval (System.ofBodies id (systems bodies)).entries (syncSlot p) =
      (.ok .performed, copied held bodies p states) := by
  have hEntry : (System.ofBodies id (systems bodies)).entries[syncSlot p]? =
      some (System.syncEntry (systems bodies) p) := by
    cases p <;> rfl
  have hDepth : (System.ofBodies id (systems bodies)).entries.length = 3 + 1 := rfl
  have hUpdate : held.update 0 (fun v =>
      .bodies (System.distribute p (systems bodies) (memo.motion.get p) v.bodyStates)) =
      held.fill 0 (.bodies (System.distribute p (systems bodies) (memo.motion.get p) states)) :=
    update_of_slot? held hHeld _
  have hStill : (held.fill 0 (.bodies (System.distribute p (systems bodies)
      (memo.motion.get p) states))).isFilled (syncSlot p) = false := by
    rw [isFilled, slot?_fill, if_neg fun h => syncSlot_ne_zero p h.1]
    exact hEmpty
  rw [eval, evalWithin, hEntry]
  simp only [hSlot, System.syncEntry, Calculation.run, hDepth, hEval, hUpdate, hStill,
    Bool.false_eq_true, if_false]
  rw [copied, hMotion]

/-- The evaluation of the slot of a partition copies this partition to the bodies, unless this has
been done before. -/
theorem eval_sync (h : memo.HoldsBodies (3 * totalNodes bodies) (CoherentAll bodies))
    (id : SystemId) (p : Partition) : ∃ memo',
      memo.eval (System.ofBodies id (systems bodies)).entries (syncSlot p) =
        (.ok .performed, memo') ∧
      memo'.HoldsBodies (3 * totalNodes bodies) (CoherentAll bodies) ∧
      memo'.motion = memo.motion ∧ ∀ q, memo'.synced q = (decide (q = p) || memo.synced q) := by
  have hEntry : (System.ofBodies id (systems bodies)).entries[syncSlot p]? =
      some (System.syncEntry (systems bodies) p) := by
    cases p <;> rfl
  cases hSlot : memo.slot? (syncSlot p) with
  | some v =>
      have hValue := (h.performed p v hSlot).1
      subst hValue
      refine ⟨memo, evalWithin_filled _ hEntry hSlot, h, rfl, fun q => ?_⟩
      by_cases hq : q = p
      · rw [hq, synced, isFilled, hSlot, decide_eq_true rfl]
        rfl
      · rw [decide_eq_false hq, Bool.false_or]
  | none =>
      have hStart : (memo.start (syncSlot p)).HoldsBodies (3 * totalNodes bodies)
          (CoherentAll bodies) := ⟨h.sized, h.length, h.bodies, h.performed⟩
      obtain ⟨held, states, hEval, hHeld, hBodies, hMotion, hSynced⟩ :=
        hStart.evalWithin_bodies id 3
      have hSynced' : held.synced = memo.synced := hSynced
      obtain ⟨hCopied, hNoted⟩ := hHeld.copy hBodies p
      have hEmpty : held.synced p = false := by
        rw [hSynced', synced, isFilled, hSlot]
        rfl
      rw [hSynced'] at hNoted
      exact ⟨_, eval_sync_of_none hSlot hEval hBodies hEmpty hMotion, hCopied, hMotion, hNoted⟩

/-- Before bodies are evaluated, each of them has its piece of every partition. -/
theorem evalBodies (h : memo.HoldsBodies (3 * totalNodes bodies) (CoherentAll bodies))
    (id : SystemId) : ∃ memo' states,
      (System.ofBodies id (systems bodies)).evalBodies memo = (states, memo') ∧
      memo'.HoldsBodies (3 * totalNodes bodies) (CoherentAll bodies) ∧
      memo'.motion = memo.motion ∧ (∀ p, memo'.synced p = true) ∧
      CoherentAll bodies (fun _ => true) memo.motion states := by
  obtain ⟨m₁, hEval₁, h₁, hMotion₁, hSynced₁⟩ := h.eval_sync id .positions
  obtain ⟨m₂, hEval₂, h₂, hMotion₂, hSynced₂⟩ := h₁.eval_sync id .velocities
  obtain ⟨m₃, hEval₃, h₃, hMotion₃, hSynced₃⟩ := h₂.eval_sync id .accelerations
  obtain ⟨m₄, states, hEval₄, h₄, hSlot, hMotion₄, hSynced₄⟩ := h₃.evalWithin_bodies id 4
  have hMotion : m₄.motion = memo.motion := by rw [hMotion₄, hMotion₃, hMotion₂, hMotion₁]
  have hAll (p : Partition) : m₄.synced p = true := by
    rw [hSynced₄, hSynced₃, hSynced₂, hSynced₁]
    cases p <;> rfl
  obtain ⟨states', hStates', hCoherent⟩ := h₄.bodies _ hSlot
  cases hStates'
  refine ⟨m₄, states, ?_, h₄, hMotion, hAll, hCoherent.mono fun p _ => ⟨hAll p, ?_⟩⟩
  · have hEval₁' : memo.eval (System.ofBodies id (systems bodies)).entries 1 = _ := hEval₁
    have hEval₂' : m₁.eval (System.ofBodies id (systems bodies)).entries 2 = _ := hEval₂
    have hEval₃' : m₂.eval (System.ofBodies id (systems bodies)).entries 3 = _ := hEval₃
    have hEval₄' : m₃.eval (System.ofBodies id (systems bodies)).entries 0 = _ := hEval₄
    simp only [System.evalBodies, List.foldl_cons, List.foldl_nil, hEval₁', hEval₂', hEval₃',
      hEval₄', Value.bodyStates]
  · rw [hMotion]

end Memo.HoldsBodies

/-! ### Any model, any slot -/

/-- The evaluation of a slot, whichever it is, keeps contents coherent and the motion as it is. -/
theorem Model.Coherent.eval {m : Model α} {memo : Memo α (Value α)} (h : m.Coherent memo)
    (i : Nat) : m.Coherent (memo.eval m.system.entries i).2 ∧
      (memo.eval m.system.entries i).2.motion = memo.motion := by
  have hNone (hEntry : m.system.entries[i]? = none) :
      m.Coherent (memo.eval m.system.entries i).2 ∧
        (memo.eval m.system.entries i).2.motion = memo.motion := by
    rw [Memo.eval_of_none hEntry]
    exact ⟨h, rfl⟩
  cases m with
  | typed m =>
      rw [system] at hNone ⊢
      cases i with
      | zero =>
          obtain ⟨memo', hEval, hMemo', hMotion⟩ := (coherent_typed.mp h).eval
          rw [hEval]
          exact ⟨coherent_typed.mpr hMemo', hMotion⟩
      | succ i => exact hNone rfl
  | composite id P bodies =>
      rw [system] at hNone ⊢
      have hMemo := coherent_composite.mp h
      rcases Nat.lt_or_ge i 4 with hi | hi
      · rcases eq_zero_or_syncSlot hi with rfl | ⟨p, rfl⟩
        · obtain ⟨memo', states, hEval, hMemo', _, hMotion, _⟩ := hMemo.evalWithin_bodies id 4
          have hEval' : memo.eval (System.ofBodies id (systems bodies)).entries 0 = _ := hEval
          rw [hEval']
          exact ⟨coherent_composite.mpr hMemo', hMotion⟩
        · obtain ⟨memo', hEval, hMemo', hMotion, _⟩ := hMemo.eval_sync id p
          rw [hEval]
          exact ⟨coherent_composite.mpr hMemo', hMotion⟩
      · exact hNone (List.getElem?_eq_none hi)

end Elastodynamics
