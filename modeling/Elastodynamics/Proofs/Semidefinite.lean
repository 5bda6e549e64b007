import Elastodynamics.Proofs.Element.Semidefinite
import Elastodynamics.Proofs.Model.BlockDiagonal
import Elastodynamics.Proofs.Model.Computed
/-!
Positive semidefinite matrices. Element matrices are scattered to the rows and columns of their
nodes, so the form of an assembled matrix is the sum of the forms of the elements, each for the
displacements of its own nodes. With a density that is not negative the assembled mass matrix is
positive semidefinite, and with stable linear elastic materials so is every tangent matrix.
-/
namespace Elastodynamics

open Model Sparse

variable {K : Type} [ExactScalar K] [Quadrature.Rules K] {S : Shape}

namespace TypedModel

variable {m : TypedModel K S} {x : Motion K} {w : Weights K} {A : BlockMatrix K}

/-- The form of an assembled matrix is the sum of the forms of the elements. -/
theorem WellFormed.dot_mulVec_tangentOf (hm : m.WellFormed)
    (h : (Model.typed m).tangentOf x w (Model.typed m).makeTangent = (A, .ok ()))
    {y : Array K} (hy : y.size = A.dim) :
    Stacked.dot y (A.toDense.mulVec y) = (m.elements.toList.map fun e : Element S K =>
      blockForm (elementTangent x.positions w e).get fun a =>
        Stacked.node y (e.nodes.get a)).sum := by
  have hSize := size_tangentOf hm h
  have hNode (i : Fin A.size) :
      (Stacked.node y i).dot (Stacked.node (A.toDense.mulVec y) i) =
        (m.elements.toList.map fun e : Element S K => (Stacked.spread e.nodes (fun b => ∑ a,
          ((elementTangent x.positions w e).get b a).mulVec (Stacked.node y (e.nodes.get a)))
            i).dot (Stacked.node y i)).sum := by
    rw [Vec3.dot_comm, node_mulVec_tangentOf hm h y (hSize ▸ i.isLt), Vec3.list_sum_dot,
      List.map_map]
    rfl
  rw [Stacked.dot_eq_sum hy (A.toDense.size_mulVec y)]
  simp only [hNode]
  rw [sum_list_sum]
  refine congrArg List.sum (List.map_congr_left fun e he => ?_)
  exact Stacked.sum_spread_dot _ (hSize ▸ hm.nodes_lt (by simpa using he)) _ _

variable [LinearOrder K] [IsStrictOrderedRing K]

/-- An assembled matrix is positive semidefinite if no element matrix has a form with a negative
value. -/
theorem WellFormed.positiveSemidefinite_tangentOf (hm : m.WellFormed)
    (h : (Model.typed m).tangentOf x w (Model.typed m).makeTangent = (A, .ok ()))
    (hForm : ∀ e : Element S K, e ∈ m.elements → ∀ u,
      0 ≤ blockForm (elementTangent x.positions w e).get u) :
    A.toDense.PositiveSemidefinite where
  symmetric := (hasSymmetricDiagonal_tangentOf
    (BlockMatrix.hasSymmetricDiagonal_ofPattern m.pattern) h).get_toDense_comm
  nonneg y hy := by
    rw [hm.dot_mulVec_tangentOf h hy]
    exact List.sum_nonneg (List.forall_mem_map.mpr fun e he => hForm e (by simpa using he) _)

end TypedModel

namespace Workspace

variable [LinearOrder K] [IsStrictOrderedRing K] [OrderedScalar K] {W : Workspace K}
  {m : TypedModel K S} {s : State K}

/-- In a state of a model the weighted tangent matrix can be assembled, and it is positive
semidefinite if no element matrix has a form with a negative value. -/
theorem Reachable.positiveSemidefinite_calcTangent (hW : W.Reachable)
    (hm : .typed m ∈ W.models) (hs : s ∈ W.states) (hId : s.system.id = m.systemId)
    (w : Weights K) (hForm : ∀ e : Element S K, e ∈ m.elements → ∀ u,
      0 ≤ blockForm (TypedModel.elementTangent s.motion.positions w e).get u) :
    ∃ A, ((Model.typed m).calcTangent s w (Model.typed m).makeTangent).2 = (A, .ok ()) ∧
      A.dim = (Model.typed m).numDofs ∧ A.toDense.PositiveSemidefinite := by
  have hWellFormed : m.WellFormed := (hW.sound.wellFormed _ hm).of_typed
  have hUnchecked : (Model.typed m).Unchecked := .typed fun _ => OrderedScalar.isFinite_eq
  obtain ⟨A, hTangent⟩ := hUnchecked.exists_tangent (.typed hWellFormed) s.motion w
  have hCoherent := (hW.sound.coherent _ hm s hs hId).2
  refine ⟨A, ?_, ?_, hWellFormed.positiveSemidefinite_tangentOf hTangent hForm⟩
  · rw [← tangentOf_eq_calcTangent (.typed hWellFormed) hId hCoherent, hTangent]
  · exact congrArg (3 * ·) (TypedModel.size_tangentOf hWellFormed hTangent)

/-- Where physics asks for it, assembled matrices are positive semidefinite and energies are not
negative, in all states of all models of elements that a program can reach. For the mass matrix,
consistent or lumped, this takes densities that are not negative and points for masses in the
reference shape; for every tangent matrix with weights that are not negative, stable linear elastic
materials and damping coefficients that are not negative beside; and for the energy, stable
materials with a quadratic energy of some strain. The quadrature rules may be any ones with positive
weights. -/
theorem positive_semidefinite (hStiffnessRule : (S.stiffnessRule : Quadrature.Rule K).Positive)
    (hMassRule : (S.massRule : Quadrature.Rule K).Positive) (hW : W.Reachable)
    (hm : .typed m ∈ W.models) (hs : s ∈ W.states) (hId : s.system.id = m.systemId) :
    ((∀ p ∈ (S.massRule : Quadrature.Rule K).nodes, S.Contains p.2) →
      (∀ e : Element S K, e ∈ m.elements → 0 ≤ e.properties.density) →
      (∃ M, ((Model.typed m).calcTangent s ⟨0, 0, 1⟩ (Model.typed m).makeTangent).2 =
          (M, .ok ()) ∧
        M.dim = (Model.typed m).numDofs ∧ M.toDense.PositiveSemidefinite) ∧
      ((∀ e : Element S K, e ∈ m.elements → e.properties.StableElastic) →
        ∀ w : Weights K, 0 ≤ w.stiffness → 0 ≤ w.damping → 0 ≤ w.mass →
        ∃ A, ((Model.typed m).calcTangent s w (Model.typed m).makeTangent).2 = (A, .ok ()) ∧
          A.dim = (Model.typed m).numDofs ∧ A.toDense.PositiveSemidefinite)) ∧
    ((∀ e : Element S K, e ∈ m.elements →
        (e.properties.law = .linearElastic ∨ e.properties.law = .stVK) ∧ e.properties.lame.Stable) →
      ∃ E, ((Model.typed m).calcEnergy s).2 = .ok E ∧ 0 ≤ E) := by
  have hWellFormed : m.WellFormed := (hW.sound.wellFormed _ hm).of_typed
  have hCoherent := (hW.sound.coherent _ hm s hs hId).2
  constructor
  · intro hPoints hDensity
    constructor
    · apply hW.positiveSemidefinite_calcTangent hm hs hId
      intro e he u
      have hMass := (hWellFormed.constructed_element he).massForm_nonneg (hDensity e he) hMassRule
        hPoints u
      rw [TypedModel.elementTangent, Element.blockForm_tangentMatrix]
      simpa using hMass
    · intro hElastic w hStiffness hDamping hMass
      apply hW.positiveSemidefinite_calcTangent hm hs hId
      intro e he u
      exact (hWellFormed.constructed_element he).tangentForm_nonneg (hDensity e he)
        hStiffnessRule hMassRule hPoints (hElastic e he) hStiffness hDamping hMass _ u
  · intro hElastic
    have hUnchecked : (Model.typed m).Unchecked := .typed fun _ => OrderedScalar.isFinite_eq
    obtain ⟨E, hEnergy⟩ := hUnchecked.energyOf s.motion
    refine ⟨E, (energyOf_eq_calcEnergy hId hCoherent).symm.trans hEnergy, ?_⟩
    rw [TypedModel.energyOf_eq_ok_solid hEnergy]
    refine List.sum_nonneg (List.forall_mem_map.mpr fun e he => ?_)
    have hMem : e ∈ m.elements := by simpa using he
    obtain ⟨hLaw, hStable⟩ := hElastic e hMem
    exact (hWellFormed.constructed_element hMem).energy_nonneg hStiffnessRule hLaw hStable _

/-- Every coordinate moves by an amount of its own. -/
def displace : Operation ℚ := .modify .positions fun i x => x + i * i

/-- The tetrahedron far from its reference positions. -/
def displacedState : State ℚ := displace.apply cornerModel.makeState

/-- The matrices and the energy of the displaced tetrahedron. -/
theorem positive_semidefinite_displaced : cornerSession.1.elements.size = 1 ∧
    (∃ M, (cornerModel.calcTangent displacedState ⟨0, 0, 1⟩ cornerModel.makeTangent).2 =
        (M, .ok ()) ∧ M.dim = cornerModel.numDofs ∧ M.toDense.PositiveSemidefinite) ∧
    (∃ A, (cornerModel.calcTangent displacedState ⟨1, 2, 3⟩ cornerModel.makeTangent).2 =
        (A, .ok ()) ∧ A.dim = cornerModel.numDofs ∧ A.toDense.PositiveSemidefinite) ∧
    ∃ E, (cornerModel.calcEnergy displacedState).2 = .ok E ∧ 0 ≤ E := by
  have hDisplaced := Reachable.step reachable_corner
    (.operate _ List.mem_cons_self displace nofun)
  have hId : displacedState.system.id = cornerModel.systemId := by
    rw [displacedState, Operation.system_apply]
    exact cornerModel.id_system
  have hPoints : ∀ p ∈ (Shape.tet4.massRule : Quadrature.Rule ℚ).nodes, Shape.tet4.Contains p.2 :=
    Shape.contains_massRule (by decide +kernel) (by decide +kernel) (by decide +kernel)
  have hDensity : ∀ e : Element .tet4 ℚ, e ∈ cornerSession.1.elements →
      0 ≤ e.properties.density := by decide +kernel
  have hParameters : ∀ e : Element .tet4 ℚ, e ∈ cornerSession.1.elements →
      e.properties.law = .linearElastic ∧
      (0 ≤ e.properties.lame.mu ∧ 0 ≤ 3 * e.properties.lame.lambda + 2 * e.properties.lame.mu) ∧
      0 ≤ e.properties.damping.massCoefficient ∧
      0 ≤ e.properties.damping.stiffnessCoefficient := by decide +kernel
  have hElastic : ∀ e : Element .tet4 ℚ, e ∈ cornerSession.1.elements →
      e.properties.StableElastic := by
    intro e he
    obtain ⟨hLaw, hStable, hMass, hStiffness⟩ := hParameters e he
    exact ⟨hLaw, ⟨hStable.1, hStable.2⟩, hMass, hStiffness⟩
  obtain ⟨hMatrices, hEnergy⟩ := positive_semidefinite (Shape.positive_stiffnessRule _)
    (Shape.positive_massRule _) hDisplaced (s := displacedState) List.mem_cons_self
    List.mem_cons_self hId
  obtain ⟨hMass, hTangent⟩ := hMatrices hPoints hDensity
  refine ⟨by decide +kernel, hMass, hTangent hElastic ⟨1, 2, 3⟩ ?_ ?_ ?_, ?_⟩
  · decide
  · decide
  · decide
  · exact hEnergy fun e he => ⟨.inl (hElastic e he).law, (hElastic e he).stable⟩

end Workspace

end Elastodynamics
