import Elastodynamics.Proofs.Caching
import Elastodynamics.Proofs.Model.Computed
/-!
Evaluation of a model for a given motion, in a new state that is given this motion. The results are
those that the motion determines.
-/
namespace Elastodynamics.Model

open Sparse

variable {α : Type} [Scalar α] [ElementFamily α]

/-- The residual of a new state with the given motion. -/
def residualAt (m : Model α) (x : Motion α) : Except ModelError (Array α) := do
  let s ← m.makeState.withMotion x
  (m.computeResidual s).2

/-- The weighted tangent matrix of a new state with the given motion. -/
def tangentAt (m : Model α) (x : Motion α) (w : Weights α) : Except ModelError (BlockMatrix α) := do
  let s ← m.makeState.withMotion x
  let (_, A, status) := m.calcTangent s w m.makeTangent
  status.map fun _ => A

/-- The elastic energy of a new state with the given motion. -/
def energyAt (m : Model α) (x : Motion α) : Except ModelError α := do
  let s ← m.makeState.withMotion x
  (m.calcEnergy s).2

variable {m : Model α} {x : Motion α}

theorem residualAt_eq_ok_iff (hx : x.Sized m.numDofs) {r : Array α} :
    m.residualAt x = .ok r ↔
      m.residualOf x (Array.replicate m.numDofs 0) = (r, .ok ()) := by
  obtain ⟨f, hNew, hSystem, hCoherent, rfl⟩ := m.makeState_withMotion hx
  have hId : f.system.id = m.systemId := hSystem ▸ m.id_system
  rw [residualAt, hNew]
  show (m.computeResidual f).2 = .ok r ↔ _
  rw [computeResidual_eq hId hCoherent]
  exact map_status_eq_ok_iff

theorem tangentAt_eq_ok_iff (hm : m.WellFormed) (hx : x.Sized m.numDofs) {w : Weights α}
    {A : BlockMatrix α} :
    m.tangentAt x w = .ok A ↔ m.tangentOf x w m.makeTangent = (A, .ok ()) := by
  obtain ⟨f, hNew, hSystem, hCoherent, rfl⟩ := m.makeState_withMotion hx
  have hId : f.system.id = m.systemId := hSystem ▸ m.id_system
  rw [tangentOf_eq_calcTangent hm hId hCoherent, tangentAt, hNew]
  exact map_status_eq_ok_iff

theorem energyAt_eq (hx : x.Sized m.numDofs) : m.energyAt x = m.energyOf x := by
  obtain ⟨f, hNew, hSystem, hCoherent, rfl⟩ := m.makeState_withMotion hx
  have hId : f.system.id = m.systemId := hSystem ▸ m.id_system
  rw [energyOf_eq_calcEnergy hId hCoherent, energyAt, hNew]
  rfl

/-- A model that takes no value for a failure is evaluated for every motion of its size. -/
theorem Unchecked.evaluated (h : m.Unchecked) (hm : m.WellFormed) (hx : x.Sized m.numDofs)
    (w : Weights α) : (∃ y, m.energyAt x = .ok y) ∧ (∃ r, m.residualAt x = .ok r) ∧
      ∃ A, m.tangentAt x w = .ok A := by
  obtain ⟨y, hEnergy⟩ := h.energyOf x
  obtain ⟨r, hResidual⟩ := h.residualOf x (Array.replicate m.numDofs 0)
  obtain ⟨A, hTangent⟩ := h.exists_tangent hm x w
  exact ⟨⟨y, (energyAt_eq hx).trans hEnergy⟩, ⟨r, (residualAt_eq_ok_iff hx).mpr hResidual⟩,
    ⟨A, (tangentAt_eq_ok_iff hm hx).mpr hTangent⟩⟩

end Elastodynamics.Model
