import Elastodynamics.Proofs.State.Coherence
import Elastodynamics.Model.Evaluation
/-!
The checks before an evaluation. A state is accepted if it belongs to the present system of the
model and has its dimension, a vector if it has the dimension of the model, and a matrix if it has
as many block rows as the model has nodes and every block of the pattern of the model. Bodies accept
coherent states of their own and the matrices that they make.
-/
namespace Elastodynamics.Model

open Sparse

variable {α : Type} [ElementFamily α] {m : Model α}

theorem checkState_eq_ok_iff {c : Contents α (Value α)} {operation : String} :
    m.checkState c operation = .ok () ↔
      c.owner = m.systemId ∧ c.memo.motion.positions.size = m.numDofs := by
  rw [checkState]
  split
  · next h => exact ⟨fun _ => h, fun _ => rfl⟩
  · next h => exact ⟨nofun, fun h' => absurd h' h⟩

theorem checkVector_eq_ok_iff {r : Array α} : m.checkVector r = .ok () ↔ r.size = m.numDofs := by
  rw [checkVector]
  split
  · next h => exact ⟨nofun, fun h' => absurd h' h⟩
  · next h => exact ⟨fun _ => Decidable.not_not.mp h, fun _ => rfl⟩

theorem checkMatrix_eq_ok_iff {A : BlockMatrix α} : m.checkMatrix A = .ok () ↔
    A.size = m.numNodes ∧ ∀ c ∈ m.pattern.entries, c ∈ A.pattern.entries := by
  rw [checkMatrix, ← Pattern.firstMissing?_eq_none_iff]
  split
  · next h => exact ⟨nofun, fun h' => absurd h'.1 h⟩
  · next h =>
      cases hMissing : A.pattern.firstMissing? m.pattern with
      | none => exact ⟨fun _ => ⟨Decidable.not_not.mp h, rfl⟩, fun _ => rfl⟩
      | some c => exact ⟨nofun, nofun⟩

variable [Scalar α]

theorem checkState_of_coherent {c : Contents α (Value α)} (hOwner : c.owner = m.systemId)
    (h : m.Coherent c.memo) (operation : String) : m.checkState c operation = .ok () :=
  checkState_eq_ok_iff.mpr ⟨hOwner, h.sized .positions⟩

/-- The matrix that a model makes passes the check of the model. -/
theorem checkMatrix_makeTangent (h : m.WellFormed) : m.checkMatrix m.makeTangent = .ok () :=
  checkMatrix_eq_ok_iff.mpr ⟨h.size_pattern, fun _ hc => hc⟩

end Elastodynamics.Model
