import Elastodynamics.Proofs.Element.Equilibrium
import Elastodynamics.Proofs.PatchTest
/-!
Balance of momentum. Elastic forces and forces from stiffness-proportional damping are internal:
over the nodes of an element they add up to zero at all positions and velocities. What is left of
the residual is the inertia, the mass-proportional damping and the weight of the mass that each node
stands for. For the Saint Venant-Kirchhoff and the Neo-Hookean law the elastic forces have no moment
either.
-/
namespace Elastodynamics.Element

variable {K : Type} [ExactScalar K] {S : Shape} {e : Element S K}

/-- Balance of momentum of an element whose nodes move as `m`, under the gravity `g`. -/
structure BalancesMomentum (e : Element S K) (m : LocalMotion S.nodeCount K) (g : Vec3 K) :
    Prop where
  /-- The resulting force is that on the mass of each row of the mass matrix. -/
  residual : ∑ b, (e.residual (e.computeData m.positions) m g).get b =
    ∑ b, (m.accelerations.get b
      + (m.velocities.get b).scale e.properties.damping.massCoefficient - g).scale (e.mass.rowSum b)
  elasticForce : ∑ b, e.elasticForce (e.computeData m.positions) b = 0
  stiffnessDamping : ∑ b, (stiffnessVelocity (e.computeData m.positions) m b).scale
    e.properties.damping.stiffnessCoefficient = 0
  /-- About the origin, and so about every point. -/
  moment : e.properties.law ≠ .linearElastic →
    ∑ b, (m.positions.get b).cross (e.elasticForce (e.computeData m.positions) b) = 0

/-- Inertia, mass-proportional damping and gravity act on the row sums of the mass matrix. Rows and
columns are exchanged, so this does not need that the matrix is symmetric. -/
theorem sum_inertialForce (m : LocalMotion S.nodeCount K) (g : Vec3 K) :
    ∑ b, e.inertialForce m g b = ∑ b, (m.accelerations.get b
      + (m.velocities.get b).scale e.properties.damping.massCoefficient - g).scale
        (e.mass.rowSum b) := by
  simp only [inertialForce, Dense.rowSum, ← Fin.sum_univ_def, Finset.sum_sub_distrib,
    Vec3.sub_scale]
  rw [Finset.sum_comm]
  simp only [Vec3.scale_sum]

/-- Every element that can be made balances momentum, of whatever shape, material, damping and
lumping, under every gravity and for all positions, velocities and accelerations. At positions
where the Neo-Hookean law is undefined this says nothing about it, since an undefined scalar is zero
in a field. -/
theorem Constructed.momentum_balance [Quadrature.Rules K] (h : e.Constructed)
    (m : LocalMotion S.nodeCount K) (g : Vec3 K) : e.BalancesMomentum m g := by
  have hElastic := h.sum_elasticForce m.positions
  have hDamping : ∑ b, (stiffnessVelocity (e.computeData m.positions) m b).scale
      e.properties.damping.stiffnessCoefficient = 0 := by
    rw [← Vec3.sum_scale, h.sum_stiffnessVelocity, Vec3.zero_scale]
  constructor
  case residual =>
    simp only [get_residual_eq, Finset.sum_add_distrib]
    rw [hElastic, hDamping, add_zero, add_zero, sum_inertialForce]
  case elasticForce => exact hElastic
  case stiffnessDamping => exact hDamping
  case moment => exact fun hLaw => sum_cross_elasticForce hLaw m.positions

/-- A bent hexahedron that is stretched unevenly and spins. -/
def spinningMotion : LocalMotion 8 ℚ where
  positions := #v[⟨0, 0, 0⟩, ⟨3, 0, 0⟩, ⟨3, 3, 0⟩, ⟨0, 2, 1⟩,
    ⟨0, 1, 3⟩, ⟨2, 0, 2⟩, ⟨4, 3, 4⟩, ⟨-1, 2, 5⟩]
  velocities := .ofFn fun a => ⟨a.val, 1, -a.val⟩
  accelerations := .ofFn fun a => ⟨1, a.val * a.val, 0⟩

/-- With both kinds of damping and under gravity, momentum is balanced. -/
theorem momentum_balance_spinning :
    let properties : Properties ℚ :=
      { law := .stVK, lame := ⟨1, 2⟩, density := 3, damping := ⟨1, 2⟩, lumping := .rowSum }
    ∃ e : Element .hex8 ℚ, ofVertices #v[0, 1, 2, 3, 4, 5, 6, 7] bentVertices properties = .ok e ∧
      e.Constructed ∧ e.BalancesMomentum spinningMotion ⟨0, 0, -10⟩ := by
  intro properties
  have hMade : (ofVertices (S := .hex8) #v[0, 1, 2, 3, 4, 5, 6, 7] bentVertices properties).isOk =
      true := by decide +kernel
  obtain ⟨e, h⟩ := exists_eq_ok_of_isOk hMade
  have hConstructed : e.Constructed := ⟨_, _, _, h⟩
  exact ⟨e, h, hConstructed, hConstructed.momentum_balance spinningMotion ⟨0, 0, -10⟩⟩

end Elastodynamics.Element
