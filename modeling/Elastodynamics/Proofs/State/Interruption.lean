import Elastodynamics.Proofs.State.Slots
/-!
Changes in place that panic. The slots that depend on a partition are emptied after it has been
changed, so a panic leaves them as they were, next to a motion that they need not go with. Nothing
else is missing: if no such slot was filled the change is complete, and the next write to the
partition makes up for what was left out.
-/
namespace Elastodynamics

namespace Memo

variable {α ν : Type} (m : Memo α ν)

theorem clear_eq_self_iff (changed : Dependencies) (dependencies : List Dependencies)
    (slots : List (Option ν)) : clear changed dependencies slots = slots ↔
      ∀ (i : Nat) (d : Dependencies), dependencies[i]? = some d → d.intersects changed = true →
        slots[i]?.join = none := by
  induction dependencies generalizing slots with
  | nil => simp [clear]
  | cons d dependencies ih =>
      cases slots with
      | nil => simp [clear]
      | cons v slots =>
          rw [clear, List.cons.injEq, ih]
          constructor
          · rintro ⟨hHead, hTail⟩ i d' hd' hMeets
            cases i with
            | zero =>
                cases hd'
                rw [if_pos hMeets] at hHead
                exact hHead.symm
            | succ i => exact hTail i d' hd' hMeets
          · intro h
            refine ⟨?_, fun i d' hd' => h (i + 1) d' hd'⟩
            split
            · next hMeets => exact (h 0 d rfl hMeets).symm
            · rfl

/-- Nothing is emptied exactly if no filled slot depends on a partition that is written. -/
theorem invalidate_eq_self_iff (dependencies : List Dependencies) (changed : Dependencies) :
    m.invalidate dependencies changed = m ↔
      ∀ i d, dependencies[i]? = some d → d.intersects changed = true → m.slot? i = none := by
  have hSlots := clear_eq_self_iff changed dependencies m.slots
  exact ⟨fun h => hSlots.mp (congrArg Memo.slots h),
    fun h => congrArg (fun slots => { m with slots }) (hSlots.mpr h)⟩

end Memo

namespace State

variable {α : Type} [ElementFamily α] (s : State α) (p : Partition) (f : Nat → α → α)

/-- What a panic leaves out of a change. -/
theorem invalidate_interrupt : (s.interrupt p f).invalidate (.single p) = s.modify p f := rfl

/-- A panic does no harm exactly if no filled slot depends on the partition. -/
theorem interrupt_eq_modify_iff : s.interrupt p f = s.modify p f ↔
    ∀ i entry, s.system.entries[i]? = some entry →
      entry.dependencies.intersects (.single p) = true → s.isUpToDate i = false := by
  have hMemo : s.interrupt p f = s.modify p f ↔
      (s.interrupt p f).memo.invalidate s.system.dependencies (.single p) =
        (s.interrupt p f).memo :=
    ⟨fun h => (congrArg State.memo h).symm, fun h => congrArg (State.mk s.system) h.symm⟩
  rw [hMemo, Memo.invalidate_eq_self_iff]
  constructor
  · intro h i entry hEntry hMeets
    have hEmpty : s.memo.slot? i = none :=
      h i entry.dependencies (by rw [System.dependencies, List.getElem?_map, hEntry]; rfl) hMeets
    rw [isUpToDate, Memo.isFilled, hEmpty]
    rfl
  · intro h i d hd hMeets
    rw [System.dependencies, List.getElem?_map] at hd
    obtain ⟨entry, hEntry, rfl⟩ := Option.map_eq_some_iff.mp hd
    exact Option.not_isSome_iff_eq_none.mp (Bool.eq_false_iff.mp (h i entry hEntry hMeets))

/-- A filled slot is read as it was before the panic, whatever it depends on. -/
theorem evalSlot_interrupt {i : Nat} {entry : Entry α} {v : Value α}
    (hEntry : s.system.entries[i]? = some entry) (hSlot : s.memo.slot? i = some v) :
    (s.interrupt p f).evalSlot i = (.ok v, s.interrupt p f) := by
  have hSame : (s.interrupt p f).memo.slot? i = some v := hSlot
  have hRead := Memo.evalWithin_filled s.system.entries.length hEntry hSame
  exact congrArg (fun r => (r.1, State.mk s.system r.2)) hRead

/-- The next write to the partition leaves nothing of a panic but the components themselves. -/
theorem write_interrupt (x : Array α) :
    (s.interrupt p f).memo.write s.system.dependencies p x =
      s.memo.write s.system.dependencies p x := by
  have hMotion : (s.interrupt p f).memo.motion.set p x = s.memo.motion.set p x := by
    cases p <;> rfl
  show Memo.invalidate { s.memo with motion := (s.interrupt p f).memo.motion.set p x } _ _ = _
  rw [hMotion]
  rfl

theorem set_interrupt (x : Array α) : (s.interrupt p f).set p x = s.set p x := by
  have hSize : (s.interrupt p f).numDofs = s.numDofs := by
    cases p with
    | positions => exact Array.size_mapIdx
    | velocities => rfl
    | accelerations => rfl
  have hWrite := s.write_interrupt p f x
  rw [set, set, hSize]
  split
  · exact congrArg (fun memo => Except.ok (State.mk s.system memo)) hWrite
  · rfl

/-- A complete change in place goes on with the components that were written before the panic. -/
theorem modify_interrupt (g : Nat → α → α) :
    (s.interrupt p f).modify p g = s.modify p fun i x => g i (f i x) := by
  have hMotion : (s.interrupt p f).motion.get p = (s.motion.get p).mapIdx f := by
    cases p <;> rfl
  refine congrArg (State.mk s.system) ?_
  show (s.interrupt p f).memo.write s.system.dependencies p _ = _
  rw [hMotion, write_interrupt, Array.mapIdx_mapIdx]
  rfl

end State

end Elastodynamics
