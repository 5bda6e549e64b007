import Elastodynamics.Proofs.Model.Uncached
/-!
Operations on states. Whatever is done to a state, and whether it succeeds or not, the state keeps
its system, and a state that was coherent for its model stays so.
-/
namespace Elastodynamics

open Sparse

variable {α : Type} [Scalar α] [ElementFamily α]

/-! ### What operations do to a coherent state -/

/-- A partition of the right size is accepted, and the state stays coherent. -/
theorem State.set_of_coherent {m : Model α} {s : State α} (hSystem : s.system = m.system)
    (h : m.Coherent s.memo) {p : Partition} {y : Array α} (hy : y.size = m.numDofs) :
    ∃ s', s.set p y = .ok s' ∧ s'.system = m.system ∧ m.Coherent s'.memo ∧
      s'.motion = s.motion.set p y := by
  have hSize : y.size = s.numDofs := hy.trans (h.sized .positions).symm
  refine ⟨{ s with memo := s.memo.write s.system.dependencies p y }, ?_, hSystem, ?_, rfl⟩
  · rw [State.set, if_pos hSize]
  · rw [hSystem]
    exact h.write p hy

namespace Model

variable {m m' : Model α} {s : State α}

/-- An evaluation of a model keeps the states of every model coherent: another model rejects the
state. -/
theorem coherent_calcResidual (h : m.Coherent s.memo) (hModel : m'.systemId = s.system.id → m' = m)
    (r : Array α) : m.Coherent (m'.calcResidual s r).1.memo := by
  cases hCheck : m'.checkResidual s.contents r with
  | error e =>
      rw [calcResidual, hCheck]
      exact h
  | ok u =>
      obtain ⟨_, hState, _⟩ := bind_eq_ok_iff.mp hCheck
      obtain rfl := hModel (checkState_eq_ok_iff.mp hState).1.symm
      obtain ⟨memo', hEval, hMemo', _⟩ := calcResidual_eq h hCheck
      rw [hEval]
      exact hMemo'

theorem coherent_calcTangent (hm : m.WellFormed) (h : m.Coherent s.memo)
    (hModel : m'.systemId = s.system.id → m' = m) (w : Weights α) (A : BlockMatrix α) :
    m.Coherent (m'.calcTangent s w A).1.memo := by
  cases hCheck : m'.checkTangent s.contents A with
  | error e =>
      rw [calcTangent, hCheck]
      exact h
  | ok u =>
      obtain ⟨_, hState, _⟩ := bind_eq_ok_iff.mp hCheck
      obtain rfl := hModel (checkState_eq_ok_iff.mp hState).1.symm
      obtain ⟨memo', hEval, hMemo', _⟩ := calcTangent_eq hm h (w := w) hCheck
      rw [hEval]
      exact hMemo'

theorem coherent_calcEnergy (h : m.Coherent s.memo) (hModel : m'.systemId = s.system.id → m' = m) :
    m.Coherent (m'.calcEnergy s).1.memo := by
  cases hCheck : m'.checkEnergy s.contents with
  | error e =>
      rw [calcEnergy, hCheck]
      exact h
  | ok u =>
      obtain rfl := hModel (checkState_eq_ok_iff.mp hCheck).1.symm
      obtain ⟨memo', hEval, hMemo', _⟩ := calcEnergy_eq h hCheck
      rw [hEval]
      exact hMemo'

end Model

/-! ### Operations -/

/-- An operation on a state. -/
inductive Operation (α : Type) [ElementFamily α] where
  | set (p : Partition) (x : Array α)
  | modify (p : Partition) (f : Nat → α → α)
  | invalidate (changed : Dependencies)
  | evalSlot (index : Nat)
  | clone
  | calcResidual (m : Model α) (r : Array α)
  | calcTangent (m : Model α) (w : Weights α) (A : BlockMatrix α)
  | calcEnergy (m : Model α)

namespace Operation

/-- The model that an operation evaluates, if it evaluates one. -/
def model? : Operation α → Option (Model α)
  | calcResidual m _ => some m
  | calcTangent m _ _ => some m
  | calcEnergy m => some m
  | _ => none

/-- The state after an operation, whether the operation has succeeded or not. -/
def apply : Operation α → State α → State α
  | set p x, s =>
    match s.set p x with
    | .ok s => s
    | .error _ => s
  | modify p f, s => s.modify p f
  | invalidate changed, s => s.invalidate changed
  | evalSlot i, s => (s.evalSlot i).2
  | clone, s => s.clone
  | calcResidual m r, s => (m.calcResidual s r).1
  | calcTangent m w A, s => (m.calcTangent s w A).1
  | calcEnergy m, s => (m.calcEnergy s).1

theorem system_apply (op : Operation α) (s : State α) : (op.apply s).system = s.system := by
  cases op with
  | set p x =>
      rw [apply, State.set]
      split
      · next h =>
          split at h
          · cases h
            rfl
          · cases h
      · rfl
  | modify p f => rfl
  | invalidate changed => rfl
  | evalSlot i => rfl
  | clone => rfl
  | calcResidual m r =>
      rw [apply, Model.calcResidual]
      split <;> rfl
  | calcTangent m w A =>
      rw [apply, Model.calcTangent]
      split <;> rfl
  | calcEnergy m =>
      rw [apply, Model.calcEnergy]
      split <;> rfl

/-- Every operation keeps a state of a model coherent, if the models with its identity that the
operation evaluates are this one. -/
theorem coherent_apply {m : Model α} (hm : m.WellFormed) {s : State α}
    (hSystem : s.system = m.system) (h : m.Coherent s.memo) (op : Operation α)
    (hModel : ∀ m', op.model? = some m' → m'.systemId = s.system.id → m' = m) :
    m.Coherent (op.apply s).memo := by
  cases op with
  | set p x =>
      rw [apply]
      by_cases hSize : x.size = m.numDofs
      · obtain ⟨s', hSet, _, hCoherent, _⟩ := State.set_of_coherent hSystem h (p := p) hSize
        rw [hSet]
        exact hCoherent
      · have hRejected : x.size ≠ s.numDofs := fun hSame => hSize (hSame.trans (h.sized .positions))
        rw [State.set, if_neg hRejected]
        exact h
  | modify p f =>
      show m.Coherent (s.memo.write s.system.dependencies p _)
      rw [hSystem]
      refine h.write p ?_
      rw [Array.size_mapIdx]
      exact h.sized p
  | invalidate changed =>
      show m.Coherent (s.memo.invalidate s.system.dependencies changed)
      rw [hSystem]
      exact h.invalidate changed
  | evalSlot i =>
      show m.Coherent (s.memo.eval s.system.entries i).2
      rw [hSystem]
      exact (h.eval i).1
  | clone =>
      show m.Coherent (.fresh s.memo.motion s.system.entries.length)
      rw [hSystem]
      exact m.coherent_fresh h.sized
  | calcResidual m' r => exact Model.coherent_calcResidual h (hModel m' rfl) r
  | calcTangent m' w A => exact Model.coherent_calcTangent hm h (hModel m' rfl) w A
  | calcEnergy m' => exact Model.coherent_calcEnergy h (hModel m' rfl)

end Operation

end Elastodynamics
