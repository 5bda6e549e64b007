import Elastodynamics.Proofs.Element.Derivatives
import Elastodynamics.Proofs.Element.Forces
import Elastodynamics.Proofs.Evaluation
/-!
Energy, residual and stiffness matrix of a model along a line of positions, as sums over its
elements. If each material has its derivatives, so has the model.
-/
namespace Elastodynamics

open Sparse

variable {K : Type} [ExactScalar K] {S : Shape}

namespace Stacked

variable {n : Nat} (nodes : Vector Nat n)

/-- Nodes that move on straight lines move the nodes of an element on straight lines. -/
theorem gather_along {x d : Array K} (hSize : x.size = d.size) (t : K) :
    gather nodes (along x d t) = Element.moved (gather nodes x) (gather nodes d) t := by
  refine vector_ext_get fun a => ?_
  rw [Element.moved, vector_get_ofFn, get_gather, get_gather, get_gather, node_along hSize]

/-- Spread vectors have the derivatives of what is spread. -/
theorem holds_spread {R : DerivativeRule K} {v : K → Fin n → Vec3 K} {v' : Fin n → Vec3 K}
    (h : ∀ a, R.HoldsVec (fun t => v t a) (v' a)) (i : Nat) :
    R.HoldsVec (fun t => spread nodes (v t) i) (spread nodes v' i) := by
  refine .sum Finset.univ fun a _ => ?_
  split
  · exact h a
  · exact .const 0

end Stacked

namespace Element

variable {R : DerivativeRule K} {e : Element S K}

/-- When nodes move in the directions `d`, and either velocities are zero or there is no damping by
stiffness, the residual changes as the elastic forces do. -/
theorem Constructed.holds_residual [Quadrature.Rules K] (he : e.Constructed)
    {x d : Vector (Vec3 K) S.nodeCount} {m : LocalMotion S.nodeCount K} {g : Vec3 K}
    (hStill : (∀ a, m.velocities.get a = 0) ∨ e.properties.damping.stiffnessCoefficient = 0)
    (hLaw : ∀ q ∈ e.points,
      e.properties.law.HasDerivatives R e.properties.lame (deformation x q)) (b : Fin S.nodeCount) :
    R.HoldsVec (fun t => (e.residual (e.computeData (moved x d t)) m g).get b)
      (∑ c, ((e.computeData x).stiffness.get b c).mulVec (d.get c)) := by
  have hDamping (t : K) :
      ∑ a, ((e.dampingMatrix (e.computeData (moved x d t))).get b a).mulVec (m.velocities.get a) =
      ∑ a, ((e.massMatrix.get b a).scale e.properties.damping.massCoefficient).mulVec
        (m.velocities.get a) := by
    refine Finset.sum_congr rfl fun a _ => ?_
    rw [get_dampingMatrix]
    rcases hStill with hVelocities | hNone
    · rw [hVelocities, Mat3.mulVec_zero, Mat3.mulVec_zero]
    · rw [hNone, Mat3.scale_zero, add_zero]
  simp only [he.get_residual, hDamping]
  exact .const_add _ (e.holds_elasticForce d hLaw b)

end Element

namespace TypedModel

variable [Quadrature.Rules K]

/-- Energy, residual and stiffness matrix of a model are successive derivatives at the positions `x`
in the direction `d`. All of them are computed in new states. -/
structure SuccessiveDerivatives (m : TypedModel K S) (R : DerivativeRule K) (x d : Array K) :
    Prop where
  /-- Without gravity and motion, the derivative of the energy is the product of the residual and
  the direction. -/
  energy : m.config.gravity = 0 → ∀ E r,
    (∀ t, (Model.typed m).energyAt (.atRest (Stacked.along x d t)) = .ok (E t)) →
    (Model.typed m).residualAt (.atRest x) = .ok r →
    R.Holds E (Stacked.dot r d)
  /-- The derivative of the residual is the stiffness matrix applied to the direction. Gravity,
  velocities and accelerations may be any if there is no damping by stiffness; if there is some,
  velocities are zero. -/
  residual : ∀ y : Motion K, y.Sized (Model.typed m).numDofs → y.positions = x →
    y.velocities = Array.replicate (Model.typed m).numDofs 0 ∨
      (∀ e : Element S K, e ∈ m.elements → e.properties.damping.stiffnessCoefficient = 0) →
    ∀ (r : K → Array K) A,
    (∀ t, (Model.typed m).residualAt { y with positions := Stacked.along x d t } = .ok (r t)) →
    (Model.typed m).tangentAt y ⟨1, 0, 0⟩ = .ok A →
    ∀ i < m.referencePositions.size,
      R.HoldsVec (fun t => Stacked.node (r t) i) (Stacked.node (A.toDense.mulVec d) i)
  /-- Unless values may be rejected as not finite, all three are there for every motion. -/
  evaluated : m.config.RejectsNone → ∀ y : Motion K, y.Sized (Model.typed m).numDofs →
    (∃ E, (Model.typed m).energyAt y = .ok E) ∧ (∃ r, (Model.typed m).residualAt y = .ok r) ∧
      ∃ A, (Model.typed m).tangentAt y ⟨1, 0, 0⟩ = .ok A

variable {m : TypedModel K S} {R : DerivativeRule K} {x d : Array K}

/-! ### Sums over the elements along a line -/

theorem energyAt_along (hx : x.size = (Model.typed m).numDofs)
    (hd : d.size = (Model.typed m).numDofs) {t E : K}
    (h : (Model.typed m).energyAt (.atRest (Stacked.along x d t)) = .ok E) :
    E = (m.elements.toList.map fun e : Element S K => (e.computeData (Element.moved
      (Stacked.gather e.nodes x) (Stacked.gather e.nodes d) t)).energy).sum := by
  have hSized : (Motion.atRest (Stacked.along x d t)).Sized (Model.typed m).numDofs := by
    rw [← Stacked.size_along hx hd t]
    exact Motion.sized_atRest _
  rw [energyOf_eq_ok_solid ((Model.energyAt_eq hSized).symm.trans h)]
  simp only [← Stacked.gather_along _ (hx.trans hd.symm)]
  rfl

theorem WellFormed.node_residualAt_along (hm : m.WellFormed)
    (hx : x.size = (Model.typed m).numDofs) (hd : d.size = (Model.typed m).numDofs)
    {y : Motion K} (hy : y.Sized (Model.typed m).numDofs) {t : K} {r : Array K}
    (h : (Model.typed m).residualAt { y with positions := Stacked.along x d t } = .ok r)
    (i : Nat) : Stacked.node r i = (m.elements.toList.map fun e : Element S K =>
      Stacked.spread e.nodes (e.residual (e.computeData (Element.moved
        (Stacked.gather e.nodes x) (Stacked.gather e.nodes d) t)) (y.restrict e.nodes)
          m.config.gravity).get i).sum := by
  have hSized : ({ y with positions := Stacked.along x d t } : Motion K).Sized
      (Model.typed m).numDofs := hy.set (p := .positions) (Stacked.size_along hx hd t)
  obtain ⟨_, hNode⟩ := node_residualOf_solid hm Array.size_replicate
    ((Model.residualAt_eq_ok_iff hSized).mp h)
  rw [hNode]
  simp only [← Stacked.gather_along _ (hx.trans hd.symm)]
  rfl

/-- What is said of all elements about velocities and damping holds at each of them. -/
theorem still_restrict {y : Motion K} {n : Nat} (hStill : y.velocities = Array.replicate n 0 ∨
      (∀ e : Element S K, e ∈ m.elements → e.properties.damping.stiffnessCoefficient = 0))
    {e : Element S K} (he : e ∈ m.elements) : (∀ a, (y.restrict e.nodes).velocities.get a = 0) ∨
      e.properties.damping.stiffnessCoefficient = 0 := by
  rcases hStill with hVelocities | hNone
  · refine .inl fun a => (Stacked.get_gather e.nodes _ a).trans ?_
    rw [hVelocities, Stacked.node_replicate]
  · exact .inr (hNone e he)

/-- Without gravity and motion, the work of the residual is that of the elastic forces. -/
theorem WellFormed.dot_residualAt (hm : m.WellFormed) (hGravity : m.config.gravity = 0)
    (hx : x.size = (Model.typed m).numDofs) (hd : d.size = (Model.typed m).numDofs)
    {r : Array K} (h : (Model.typed m).residualAt (.atRest x) = .ok r) :
    Stacked.dot r d = (m.elements.toList.map fun e : Element S K => ∑ b,
      (e.elasticForce (e.computeData (Stacked.gather e.nodes x)) b).dot
        ((Stacked.gather e.nodes d).get b)).sum := by
  have hSized : (Motion.atRest x).Sized (Model.typed m).numDofs := hx ▸ Motion.sized_atRest x
  obtain ⟨hSize, hNode⟩ := node_residualOf_solid hm Array.size_replicate
    ((Model.residualAt_eq_ok_iff hSized).mp h)
  rw [Stacked.dot_eq_sum hSize hd]
  simp only [hNode, Vec3.list_sum_dot, List.map_map]
  rw [sum_list_sum]
  refine congrArg List.sum (List.map_congr_left fun e he => ?_)
  have hMem : e ∈ m.elements := by simpa using he
  have hStill (a : Fin S.nodeCount) :
      (Stacked.gather (Element.nodes e) (Array.replicate x.size (0 : K))).get a = 0 :=
    (Stacked.get_gather _ _ a).trans (Stacked.node_replicate _ _)
  refine (Stacked.sum_spread_dot _ (hm.nodes_lt hMem) _ _).trans
    (Finset.sum_congr rfl fun b _ => ?_)
  rw [hGravity, (hm.constructed_element hMem).get_residual_atRest b hStill hStill,
    Stacked.get_gather]
  rfl

/-! ### Derivatives -/

/-- If every material law has its derivatives at every deformation gradient, energy, residual and
stiffness matrix are successive derivatives. -/
theorem WellFormed.successiveDerivatives (hm : m.WellFormed)
    (hx : x.size = (Model.typed m).numDofs) (hd : d.size = (Model.typed m).numDofs)
    (hLaw : ∀ e : Element S K, e ∈ m.elements → ∀ q ∈ e.points,
      e.properties.law.HasDerivatives R e.properties.lame
        (Element.deformation (Stacked.gather e.nodes x) q)) :
    m.SuccessiveDerivatives R x d where
  energy hGravity E r hE hr := by
    rw [funext fun t => energyAt_along hx hd (hE t), hm.dot_residualAt hGravity hx hd hr]
    exact R.list_sum fun e he => Element.holds_energy e _ (hLaw e (by simpa using he))
  residual y hy hPositions hStill r A hr hA i hi := by
    have hTangent := (Model.tangentAt_eq_ok_iff (.typed hm) hy).mp hA
    simp only [hm.node_residualAt_along hx hd hy (hr _) i,
      node_mulVec_tangentOf hm hTangent d hi]
    refine .list_sum fun e he => Stacked.holds_spread _ (fun b => ?_) i
    have hMem : e ∈ m.elements := by simpa using he
    have hDerivative := (hm.constructed_element hMem).holds_residual
      (d := Stacked.gather (Element.nodes e) d) (g := m.config.gravity) (still_restrict hStill hMem)
      (hLaw e hMem) b
    simp only [elementTangent, Element.get_tangentMatrix_stiffness, hPositions]
    simpa only [Stacked.get_gather] using hDerivative
  evaluated hNone _ hy := (Model.Unchecked.typed hNone).evaluated (.typed hm) hy _

end TypedModel

end Elastodynamics
