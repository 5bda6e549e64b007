import Elastodynamics.Proofs.Material.Reference
import Elastodynamics.Proofs.Element.Forces
import Elastodynamics.Proofs.Element.Integrals
import Elastodynamics.Proofs.Element.Reference
import Elastodynamics.Proofs.Model.Cells
import Elastodynamics.Proofs.Model.Computed
import Elastodynamics.Proofs.Workspace.Reachable
/-!
The reference configuration. A new state of a model is at rest in the reference positions of its
nodes. If all elements were made on cells, nothing is deformed there: without gravity there is no
force on any node, and no energy.
-/
namespace Elastodynamics

variable {K : Type} [ExactScalar K] [LinearOrder K] [IsStrictOrderedRing K] [OrderedScalar K]
  [Quadrature.Rules K] {S : Shape}

namespace Element

variable {e : Element S K} {positions : Array (Vec3 K)}

/-- A placed element has no elastic forces in its reference positions. -/
theorem elasticForce_of_placed (h : S.solid.Placed positions e) (hLog : Scalar.log (1 : K) = 0)
    (b : Fin S.nodeCount) : e.elasticForce
      (e.computeData (Stacked.gather e.nodes (Stacked.ofNodes positions.toList))) b = 0 := by
  rw [elasticForce_eq]
  refine List.sum_eq_zero fun v hv => ?_
  obtain ⟨q, hq, rfl⟩ := List.mem_map.mp hv
  rw [deformation_eq_one_of_placed h hq, Law.stress_one _ hLog, Mat3.zero_mulVec, Vec3.zero_scale]

/-- A placed element has no energy in its reference positions. -/
theorem energy_of_placed (h : S.solid.Placed positions e) (hLog : Scalar.log (1 : K) = 0) :
    (e.computeData (Stacked.gather e.nodes (Stacked.ofNodes positions.toList))).energy = 0 := by
  rw [energy_eq]
  refine List.sum_eq_zero fun y hy => ?_
  obtain ⟨q, hq, rfl⟩ := List.mem_map.mp hy
  rw [deformation_eq_one_of_placed h hq, Law.energy_one _ hLog, mul_zero]

end Element

namespace TypedModel

variable {m : TypedModel K S}

/-- Residuals of placed elements add up to zero in the reference positions, without gravity. -/
theorem residualOf_eq_zero (hm : m.WellFormed)
    (hPlaced : ∀ e ∈ m.elements, S.solid.Placed m.referencePositions e)
    (hGravity : m.config.gravity = 0) (hLog : Scalar.log (1 : K) = 0) {r r' : Array K}
    (hr : r.size = 3 * m.referencePositions.size)
    (h : (Model.typed m).residualOf
      (.atRest (Stacked.ofNodes m.referencePositions.toList)) r = (r', .ok ())) :
    r' = Array.replicate (3 * m.referencePositions.size) 0 := by
  obtain ⟨hSize, hNode⟩ := node_residualOf_solid hm hr h
  refine Stacked.ext_node hSize Array.size_replicate fun i _ => ?_
  rw [hNode, Stacked.node_replicate]
  refine List.sum_eq_zero fun v hv => ?_
  obtain ⟨e, he, rfl⟩ := List.mem_map.mp hv
  have hMem : e ∈ m.elements := by simpa using he
  refine Finset.sum_eq_zero fun a _ => ?_
  have hStill (a : Fin S.nodeCount) (n : Nat) :
      (Stacked.gather e.nodes (Array.replicate n (0 : K))).get a = 0 :=
    (Stacked.get_gather e.nodes _ a).trans (Stacked.node_replicate _ _)
  rw [hGravity, (hm.constructed_element hMem).get_residual_atRest a (hStill · _) (hStill · _)]
  have hForce := Element.elasticForce_of_placed (hPlaced e hMem) hLog a
  split
  · exact hForce
  · rfl

/-- Energies of placed elements add up to zero in the reference positions. -/
theorem energyOf_eq_zero (hPlaced : ∀ e ∈ m.elements, S.solid.Placed m.referencePositions e)
    (hLog : Scalar.log (1 : K) = 0) {y : K} (h : (Model.typed m).energyOf
      (.atRest (Stacked.ofNodes m.referencePositions.toList)) = .ok y) : y = 0 := by
  rw [energyOf_eq_ok_solid h]
  refine List.sum_eq_zero fun y hy => ?_
  obtain ⟨e, he, rfl⟩ := List.mem_map.mp hy
  exact Element.energy_of_placed (hPlaced e (by simpa using he)) hLog

/-- A model whose elements were all made on cells, in however many sessions and with whatever
materials, is at rest in its reference configuration: in a new state, and without gravity, every
residual is zero, whatever the vector holds before, and so is the elastic energy. -/
theorem CellBuilt.at_rest (hm : m.CellBuilt) (hGravity : m.config.gravity = 0)
    (hLog : Scalar.log (1 : K) = 0) {r : Array K} (hr : r.size = (Model.typed m).numDofs) :
    ((Model.typed m).calcResidual (Model.typed m).makeState r).2 =
      (Array.replicate (Model.typed m).numDofs 0, .ok ()) ∧
    ((Model.typed m).calcEnergy (Model.typed m).makeState).2 = .ok 0 := by
  have hWellFormed := hm.wellFormed
  have hId : (Model.typed m).makeState.system.id = (Model.typed m).systemId :=
    (Model.typed m).id_system
  have hCoherent := (Model.typed m).coherent_initial
  have hUnchecked : (Model.typed m).Unchecked := .typed fun _ => OrderedScalar.isFinite_eq
  have hState (operation : String) :=
    Model.checkState_of_coherent (c := (Model.typed m).makeState.contents) hId hCoherent operation
  refine ⟨?_, ?_⟩
  · have hCheck : (Model.typed m).checkResidual (Model.typed m).makeState.contents r =
        .ok () := by
      rw [Model.checkResidual, hState]
      exact Model.checkVector_eq_ok_iff.mpr hr
    obtain ⟨_, hEval, _⟩ := Model.calcResidual_eq hCoherent hCheck
    obtain ⟨r', hResidual⟩ := hUnchecked.residualOf (Model.typed m).makeState.motion r
    rw [hEval, hResidual, residualOf_eq_zero hWellFormed hm.placed hGravity hLog hr hResidual]
    rfl
  · obtain ⟨_, hEval, _⟩ := Model.calcEnergy_eq hCoherent (hState _)
    obtain ⟨y, hEnergy⟩ := hUnchecked.energyOf (Model.typed m).makeState.motion
    rw [hEval, hEnergy, energyOf_eq_zero hm.placed hLog hEnergy]

/-- A second session with the model of the tetrahedron: a node on its own, a cell without volume,
which is rejected, and two cells in two steps, each of which counts its vertices from zero. -/
def pairCommands : List (Command ℚ Shape.tet4) :=
  let properties : Properties ℚ :=
    { law := .neoHookean, lame := ⟨1, 2⟩, density := 1, damping := ⟨1, 2⟩, lumping := .rowSum }
  [.addNode ⟨5, 5, 5⟩,
   .addCells [⟨0, 0, 0⟩, ⟨1, 0, 0⟩, ⟨0, 1, 0⟩, ⟨1, 1, 0⟩] [#v[0, 1, 2, 3]] properties,
   .addCells [⟨0, 0, 0⟩, ⟨2, 0, 0⟩, ⟨0, 2, 0⟩, ⟨0, 0, 2⟩] [#v[0, 1, 2, 3]] properties,
   .addCells [⟨1, 1, 1⟩, ⟨4, 1, 1⟩, ⟨1, 3, 1⟩, ⟨1, 1, 2⟩] [#v[2, 3, 0, 1]] properties,
   .build]

/-- The model after both sessions. -/
def pairModel : TypedModel ℚ Shape.tet4 :=
  (Workspace.cornerSession.1.session pairCommands Workspace.cornerSession.2).1

theorem cellBuilt_pair : pairModel.CellBuilt := by
  have hCorner : Workspace.cornerSession.1.CellBuilt := by
    refine .session (.ofConfig Workspace.cornerConfig ⟨0⟩) ?_ ?_
    · simp [Workspace.cornerCommands]
    · simp [Workspace.cornerCommands, Builder.OnlyCells]
  refine .session hCorner ?_ ?_
  · simp [pairCommands]
  · simp [pairCommands, Builder.OnlyCells]

/-- Three elements from two sessions, at rest. -/
theorem at_rest_pair : pairModel.elements.size = 3 ∧
    ((Model.typed pairModel).calcResidual (Model.typed pairModel).makeState
      (Array.replicate 39 1)).2 = (Array.replicate 39 0, .ok ()) ∧
    ((Model.typed pairModel).calcEnergy (Model.typed pairModel).makeState).2 =
      .ok 0 := by
  have hCount : pairModel.elements.size = 3 := by decide +kernel
  have hDofs : (Model.typed pairModel).numDofs = 39 := by decide +kernel
  have hGravity : pairModel.config.gravity = 0 := by decide +kernel
  have hRest := CellBuilt.at_rest cellBuilt_pair hGravity rfl (r := Array.replicate 39 1)
    (hDofs ▸ Array.size_replicate)
  rw [hDofs] at hRest
  exact ⟨hCount, hRest⟩

end TypedModel

end Elastodynamics
