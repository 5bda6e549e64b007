import Elastodynamics.Proofs.Model.Bodies
import Elastodynamics.Proofs.Model.Unchecked
/-!
Evaluation in a coherent state of the model itself. The checks are passed, so the result is the one
for the motion of the state.
-/
namespace Elastodynamics.Model

variable {α : Type} [Scalar α] [ElementFamily α] {b : Model α} {t : State α}

/-- The new vector that a body computes is its residual for the motion of the state, written over
zeros. -/
theorem computeResidual_eq (hId : t.system.id = b.systemId) (h : b.Coherent t.memo) :
    (b.computeResidual t).2 = (b.residualOf t.motion (Array.replicate b.numDofs 0)).2.map
      fun _ => (b.residualOf t.motion (Array.replicate b.numDofs 0)).1 := by
  have hCheck : b.checkResidual t.contents (Array.replicate b.numDofs 0) = .ok () := by
    rw [checkResidual, checkState_of_coherent hId h]
    exact checkVector_eq_ok_iff.mpr Array.size_replicate
  obtain ⟨memo', hEval, _⟩ := calcResidual_eq h hCheck
  rw [computeResidual, hEval]

/-- A residual that has been computed is the one for the motion of the state, whatever the vector
holds before. -/
theorem residualOf_of_computeResidual (hId : t.system.id = b.systemId) (h : b.Coherent t.memo)
    {y : Array α} (hResult : (b.computeResidual t).2 = .ok y) (r : Array α)
    (hr : r.size = b.numDofs) : b.residualOf t.motion r = (y, .ok ()) := by
  refine b.residualOf_congr _ (Array.replicate b.numDofs 0) r y Array.size_replicate hr ?_
  rw [computeResidual_eq hId h] at hResult
  generalize b.residualOf t.motion (Array.replicate b.numDofs 0) = outcome at hResult ⊢
  obtain ⟨y', status⟩ := outcome
  cases status with
  | error e => cases hResult
  | ok u =>
      cases hResult
      rfl

/-- The matrix that a body computes is its tangent matrix for the motion of the state. -/
theorem tangentOf_eq_calcTangent (hm : b.WellFormed) (hId : t.system.id = b.systemId)
    (h : b.Coherent t.memo) (w : Weights α) :
    b.tangentOf t.motion w b.makeTangent = (b.calcTangent t w b.makeTangent).2 := by
  have hCheck : b.checkTangent t.contents b.makeTangent = .ok () := by
    rw [checkTangent, checkState_of_coherent hId h]
    exact checkMatrix_makeTangent hm
  obtain ⟨memo', hEval, _⟩ := calcTangent_eq hm h (w := w) hCheck
  rw [hEval]

/-- The energy that a body computes is its energy for the motion of the state. -/
theorem energyOf_eq_calcEnergy (hId : t.system.id = b.systemId) (h : b.Coherent t.memo) :
    b.energyOf t.motion = (b.calcEnergy t).2 := by
  have hCheck : b.checkEnergy t.contents = .ok () := checkState_of_coherent hId h _
  obtain ⟨memo', hEval, _⟩ := calcEnergy_eq h hCheck
  rw [hEval]

/-- An unchecked model can always compute a residual. -/
theorem Unchecked.computeResidual (hUnchecked : b.Unchecked) (hId : t.system.id = b.systemId)
    (h : b.Coherent t.memo) : ∃ y, (b.computeResidual t).2 = .ok y := by
  obtain ⟨y, hResidual⟩ := hUnchecked.residualOf t.motion (Array.replicate b.numDofs 0)
  rw [computeResidual_eq hId h, hResidual]
  exact ⟨y, rfl⟩

end Elastodynamics.Model
