import Elastodynamics.Proofs.Element.Forces
import Elastodynamics.Proofs.Evaluation
import Elastodynamics.Proofs.Model.Sums
/-!
The equation of motion. A residual is computed without a mass or a damping matrix, and yet it is
what the assembled matrices give: mass times acceleration, less gravity, and damping times velocity,
beside the elastic forces.
-/
namespace Elastodynamics

open Model Sparse

variable {K : Type} [ExactScalar K] [Quadrature.Rules K] {S : Shape}

namespace TypedModel

variable {m : TypedModel K S} {x : Motion K} {n : Nat}

/-- The model with another acceleration of gravity. -/
def withGravity (m : TypedModel K S) (g : Vec3 K) : TypedModel K S :=
  { m with config := { m.config with gravity := g } }

theorem WellFormed.withGravity (hm : m.WellFormed) (g : Vec3 K) : (m.withGravity g).WellFormed :=
  ⟨hm.constructed, hm.pattern⟩

/-- The forces of an element at its nodes are what its matrices give, and its elastic forces. -/
theorem residual_of_element {e : Element S K} (he : e.Constructed) (hx : x.Sized (3 * n))
    (hLt : ∀ a, e.nodes.get a < n) (g : Vec3 K) (b : Fin S.nodeCount) :
    (e.residual (e.computeData (Stacked.gather e.nodes x.positions)) (x.restrict e.nodes) g).get b =
      ∑ a, ((elementTangent x.positions ⟨0, 0, 1⟩ e).get b a).mulVec
        (Stacked.node (Stacked.sub x.accelerations (Stacked.uniform n g)) (e.nodes.get a)) +
      ∑ a, ((elementTangent x.positions ⟨0, 1, 0⟩ e).get b a).mulVec
        (Stacked.node x.velocities (e.nodes.get a)) +
      (e.residual (e.computeData (Stacked.gather e.nodes x.positions))
        ((Motion.atRest x.positions).restrict e.nodes) 0).get b := by
  have hUniform : x.accelerations.size = (Stacked.uniform n g).size :=
    (hx .accelerations).trans (Stacked.size_uniform n g).symm
  rw [he.get_residual, he.get_residual_atRest]
  · simp only [elementTangent, Element.get_tangentMatrix_mass, Element.get_tangentMatrix_damping,
      Stacked.node_sub hUniform, Stacked.node_uniform (hLt _)]
    simp only [Motion.restrict, Stacked.get_gather]
  · exact fun a => (Stacked.get_gather e.nodes _ a).trans (Stacked.node_replicate _ _)
  · exact fun a => (Stacked.get_gather e.nodes _ a).trans (Stacked.node_replicate _ _)

/-- A residual that is complete is what the assembled matrices give, beside the residual without
motion and gravity. -/
theorem residualOf_eq (hm : m.WellFormed) (hn : m.referencePositions.size = n)
    (hx : x.Sized (3 * n)) {r r' f : Array K} {M D : BlockMatrix K} (hr : r.size = 3 * n)
    (h : (Model.typed m).residualOf x r = (r', .ok ()))
    (hM : (Model.typed m).tangentOf x ⟨0, 0, 1⟩ (Model.typed m).makeTangent = (M, .ok ()))
    (hD : (Model.typed m).tangentOf x ⟨0, 1, 0⟩ (Model.typed m).makeTangent = (D, .ok ()))
    (hf : (Model.typed (m.withGravity 0)).residualOf (.atRest x.positions)
      (Array.replicate (3 * n) 0) = (f, .ok ())) :
    r' = Stacked.add (Stacked.add
      (M.toDense.mulVec (Stacked.sub x.accelerations (Stacked.uniform n m.config.gravity)))
      (D.toDense.mulVec x.velocities)) f := by
  subst hn
  obtain ⟨hSize, hNode⟩ := node_residualOf_solid hm hr h
  obtain ⟨hSizeRest, hNodeRest⟩ :=
    node_residualOf_solid (hm.withGravity 0) Array.size_replicate hf
  replace hNodeRest (i : Nat) : Stacked.node f i = (m.elements.toList.map fun e : Element S K =>
    Stacked.spread e.nodes (e.residual (e.computeData (Stacked.gather e.nodes x.positions))
        ((Motion.atRest x.positions).restrict e.nodes) 0).get i).sum := hNodeRest i
  have hSizeM (y : Array K) : (M.toDense.mulVec y).size = 3 * m.referencePositions.size := by
    rw [Dense.size_mulVec, BlockMatrix.dim, size_tangentOf hm hM]
  have hSizeD (y : Array K) : (D.toDense.mulVec y).size = 3 * m.referencePositions.size := by
    rw [Dense.size_mulVec, BlockMatrix.dim, size_tangentOf hm hD]
  have hSizeSum (y z : Array K) := Stacked.size_add (hSizeM y) (hSizeD z)
  refine Stacked.ext_node hSize (Stacked.size_add (hSizeSum _ _) hSizeRest) fun i hi => ?_
  rw [Stacked.node_add ((hSizeSum _ _).trans hSizeRest.symm),
    Stacked.node_add ((hSizeM _).trans (hSizeD _).symm), hNode, hNodeRest,
    node_mulVec_tangentOf hm hM _ hi, node_mulVec_tangentOf hm hD _ hi]
  rw [← List.sum_map_add, ← List.sum_map_add]
  refine congrArg List.sum (List.map_congr_left fun e he => ?_)
  have hMem : e ∈ m.elements := by simpa using he
  rw [← Stacked.spread_add e.nodes, ← Stacked.spread_add e.nodes]
  refine congrArg (fun v => Stacked.spread e.nodes v i) (funext fun b => ?_)
  exact residual_of_element (hm.constructed_element hMem) hx (hm.nodes_lt hMem) m.config.gravity b

end TypedModel

namespace Workspace

variable {W : Workspace K} {m : TypedModel K S} {s : State K}

/-- The equation of motion. A residual that is computed without an error, over whatever vector, is
`M (a - g) + D v + f`. Here `M` and `D` are the assembled mass and damping matrices in the same
state, gravity is repeated for each node, and `f` is the residual for the same positions without
motion and gravity. Unless values may be rejected as not finite, the matrices and the elastic
residual are always there. -/
theorem equation_of_motion (hW : W.Reachable) (hm : .typed m ∈ W.models) (hs : s ∈ W.states)
    {r r' : Array K} (h : ((Model.typed m).calcResidual s r).2 = (r', .ok ())) :
    (∀ M D f,
      ((Model.typed m).calcTangent s ⟨0, 0, 1⟩ (Model.typed m).makeTangent).2 = (M, .ok ()) →
      ((Model.typed m).calcTangent s ⟨0, 1, 0⟩ (Model.typed m).makeTangent).2 = (D, .ok ()) →
      (Model.typed (m.withGravity 0)).residualAt (.atRest s.motion.positions) = .ok f →
      r' = Stacked.add (Stacked.add
        (M.toDense.mulVec (Stacked.sub s.motion.accelerations
          (Stacked.uniform m.referencePositions.size m.config.gravity)))
        (D.toDense.mulVec s.motion.velocities)) f) ∧
    (m.config.RejectsNone → ∃ M D f,
      ((Model.typed m).calcTangent s ⟨0, 0, 1⟩ (Model.typed m).makeTangent).2 = (M, .ok ()) ∧
      ((Model.typed m).calcTangent s ⟨0, 1, 0⟩ (Model.typed m).makeTangent).2 = (D, .ok ()) ∧
      (Model.typed (m.withGravity 0)).residualAt (.atRest s.motion.positions) = .ok f) := by
  have hWellFormed : m.WellFormed := (hW.sound.wellFormed _ hm).of_typed
  cases hCheck : (Model.typed m).checkResidual s.contents r with
  | error e =>
      rw [calcResidual, hCheck] at h
      cases h
  | ok u =>
      obtain ⟨_, hState, hVector⟩ := bind_eq_ok_iff.mp hCheck
      have hId : s.system.id = m.systemId := (checkState_eq_ok_iff.mp hState).1
      have hCoherent := (hW.sound.coherent _ hm s hs hId).2
      have hSized : s.motion.Sized (3 * m.referencePositions.size) := hCoherent.sized
      have hRest : (Motion.atRest s.motion.positions).Sized (3 * m.referencePositions.size) := by
        rw [← hSized .positions]
        exact Motion.sized_atRest _
      have hTangent := tangentOf_eq_calcTangent (.typed hWellFormed) hId hCoherent
      obtain ⟨_, hEval, _⟩ := calcResidual_eq hCoherent hCheck
      rw [hEval] at h
      refine ⟨fun M D f hM hD hf => ?_, fun hNone => ?_⟩
      · rw [← hTangent] at hM hD
        exact TypedModel.residualOf_eq hWellFormed rfl hSized (checkVector_eq_ok_iff.mp hVector) h
          hM hD ((residualAt_eq_ok_iff hRest).mp hf)
      · have hUnchecked := Unchecked.typed (m := m) hNone
        have hWeightless := Unchecked.typed (m := m.withGravity 0) hNone
        obtain ⟨M, hM⟩ := hUnchecked.exists_tangent (.typed hWellFormed) s.motion ⟨0, 0, 1⟩
        obtain ⟨D, hD⟩ := hUnchecked.exists_tangent (.typed hWellFormed) s.motion ⟨0, 1, 0⟩
        obtain ⟨f, hf⟩ := hWeightless.residualOf (.atRest s.motion.positions)
          (Array.replicate (3 * m.referencePositions.size) 0)
        rw [hTangent] at hM hD
        exact ⟨M, D, f, hM, hD, (residualAt_eq_ok_iff hRest).mpr hf⟩

/-- Every node gets a velocity of its own. -/
def setInMotion : Operation ℚ := .modify .velocities fun i _ => i * i

/-- Every node gets an acceleration of its own. -/
def accelerate : Operation ℚ := .modify .accelerations fun i _ => i + 1

/-- The tetrahedron in its reference positions, with nodes that move and accelerate. -/
def thrownState : State ℚ := accelerate.apply (setInMotion.apply cornerModel.makeState)

/-- The residual of the moving tetrahedron. -/
theorem equation_of_motion_thrown : ∃ r' M D f,
    (cornerModel.calcResidual thrownState (Array.replicate 12 1)).2 = (r', .ok ()) ∧
    (cornerModel.calcTangent thrownState ⟨0, 0, 1⟩ cornerModel.makeTangent).2 = (M, .ok ()) ∧
    (cornerModel.calcTangent thrownState ⟨0, 1, 0⟩ cornerModel.makeTangent).2 = (D, .ok ()) ∧
    r' = Stacked.add (Stacked.add
      (M.toDense.mulVec (Stacked.sub thrownState.motion.accelerations
        (Stacked.uniform cornerSession.1.referencePositions.size cornerSession.1.config.gravity)))
      (D.toDense.mulVec thrownState.motion.velocities)) f := by
  have hMoving := Reachable.step reachable_corner
    (.operate _ List.mem_cons_self setInMotion nofun)
  have hThrown := Reachable.step hMoving
    (.operate _ List.mem_cons_self accelerate nofun)
  have hNone : cornerSession.1.config.RejectsNone :=
    Config.rejectsNone_of_unchecked (by decide +kernel)
  have hId : thrownState.system.id = cornerModel.systemId := by
    rw [thrownState, Operation.system_apply, Operation.system_apply]
    exact cornerModel.id_system
  have hCoherent :=
    (hThrown.sound.coherent cornerModel List.mem_cons_self thrownState List.mem_cons_self hId).2
  have hCheck : cornerModel.checkResidual thrownState.contents (Array.replicate 12 1) = .ok () := by
    rw [checkResidual, checkState_of_coherent hId hCoherent]
    exact checkVector_eq_ok_iff.mpr (by decide +kernel)
  obtain ⟨_, hEval, _⟩ := calcResidual_eq hCoherent hCheck
  have hUnchecked : cornerModel.Unchecked := .typed (m := cornerSession.1) hNone
  obtain ⟨r', hResidual⟩ := hUnchecked.residualOf thrownState.motion (Array.replicate 12 1)
  have h : (cornerModel.calcResidual thrownState (Array.replicate 12 1)).2 = (r', .ok ()) := by
    rw [hEval, hResidual]
  obtain ⟨hEquation, hExists⟩ :=
    equation_of_motion hThrown (s := thrownState) List.mem_cons_self
      List.mem_cons_self h
  obtain ⟨M, D, f, hM, hD, hf⟩ := hExists hNone
  exact ⟨r', M, D, f, h, hM, hD, hEquation M D f hM hD hf⟩

end Workspace

end Elastodynamics
