import Elastodynamics.Proofs.Evaluation
import Elastodynamics.Proofs.Model.Cells
import Elastodynamics.Proofs.Model.RigidMotion
import Elastodynamics.Proofs.Workspace.Reachable
/-!
Objectivity. A model of Saint Venant-Kirchhoff and Neo-Hookean materials does not see where it is
and how it is turned: if all nodes are rotated and translated together, its energy is the same, the
residual at rest is rotated node by node, and the blocks of the stiffness matrix are those of the
turned frame. Neo-Hookean quantities are defined after the motion where they were defined before.
-/
namespace Elastodynamics

open Sparse

variable {K : Type} [ExactScalar K]

namespace Stacked

/-- The positions `x`, rotated by `R` and then translated by `c`. -/
def rotated (R : Mat3 K) (c : Vec3 K) (x : Array K) : Array K :=
  ofNodes ((List.range (x.size / 3)).map fun i => R.mulVec (node x i) + c)

variable {R : Mat3 K} {c : Vec3 K} {x : Array K} {n : Nat}

theorem size_rotated (hx : x.size = 3 * n) : (rotated R c x).size = 3 * n := by
  rw [rotated, size_ofNodes, List.length_map, List.length_range]
  omega

theorem node_rotated (hx : x.size = 3 * n) {i : Nat} (hi : i < n) :
    node (rotated R c x) i = R.mulVec (node x i) + c := by
  have hLt : i < ((List.range (x.size / 3)).map fun i => R.mulVec (node x i) + c).length := by
    rw [List.length_map, List.length_range]
    omega
  rw [rotated, node_ofNodes hLt, List.getElem_map, List.getElem_range]

end Stacked

variable [Quadrature.Rules K]

/-- The determinants of the deformation gradients of an element, each with whether it is positive
and whether the Neo-Hookean law is defined there. -/
def Site.definedness (s : Site K) : List (K × Bool × Bool) :=
  (ElementData.deformations s.data).map fun F =>
    (F.det, Scalar.lt 0 F.det, (NeoHookean.invert? F).isSome)

namespace Model

/-- That a model does not see a rotation and a translation of the positions `x`. All quantities are
computed in new states. -/
structure Objective (m : Model K) (R : Mat3 K) (c : Vec3 K) (x : Array K) : Prop where
  /-- No determinant of a deformation gradient changes, and no law becomes undefined or defined. -/
  defined : (m.sites (.atRest (Stacked.rotated R c x))).map Site.definedness =
    (m.sites (.atRest x)).map Site.definedness
  /-- The energy is kept, whatever the velocities and accelerations are, and so is its failure. -/
  energy : ∀ y y' : Motion K, y.Sized m.numDofs → y'.Sized m.numDofs → y.positions = x →
    y'.positions = Stacked.rotated R c x → m.energyAt y' = m.energyAt y
  /-- Without motion and gravity, the residual is the internal force. It is rotated. -/
  residual : (∀ s ∈ m.sites (.atRest x), s.config.gravity = 0) → ∀ r r',
    m.residualAt (.atRest x) = .ok r → m.residualAt (.atRest (Stacked.rotated R c x)) = .ok r' →
    ∀ i < m.numNodes, Stacked.node r' i = R.mulVec (Stacked.node r i)
  /-- The blocks of the stiffness matrix are those of the turned frame. -/
  stiffness : ∀ y y' : Motion K, y.Sized m.numDofs → y'.Sized m.numDofs → y.positions = x →
    y'.positions = Stacked.rotated R c x → ∀ A A', m.tangentAt y ⟨1, 0, 0⟩ = .ok A →
    m.tangentAt y' ⟨1, 0, 0⟩ = .ok A' → ∀ i j,
      A'.toDense.blockAt i j = R * A.toDense.blockAt i j * R.transpose
  /-- Unless values may be rejected as not finite, all three are there for every motion. -/
  evaluated : m.Unchecked → ∀ y : Motion K, y.Sized m.numDofs →
    (∃ E, m.energyAt y = .ok E) ∧ (∃ r, m.residualAt y = .ok r) ∧
      ∃ A, m.tangentAt y ⟨1, 0, 0⟩ = .ok A

end Model

/-! ### Rigid motions of models -/

theorem Site.definedness_rotate {S : Shape} {e : Element S K} {R : Mat3 K} {c : Vec3 K}
    (hR : R.IsRotation) (config : Config K) {x y : Motion K} (he : e.Constructed)
    (hMoved : ∀ a, (Stacked.gather e.nodes y.positions).get a =
      R.mulVec ((Stacked.gather e.nodes x.positions).get a) + c) :
    definedness ⟨S, e, config, y⟩ = definedness ⟨S, e, config, x⟩ := by
  show (e.computeData (Stacked.gather e.nodes y.positions)).deformations.map _ =
    (e.computeData (Stacked.gather e.nodes x.positions)).deformations.map _
  rw [he.deformations_rotate hMoved, List.map_map]
  apply List.map_congr_left
  intro F _
  rw [Function.comp_apply, hR.det_mul_left, NeoHookean.invert?_rotate F hR, Option.isSome_map]

/-- A new motion at rest is still, if there is no gravity. -/
theorem Still.atRest {n : Nat} {sites : List (Site K)} (x : Array K)
    (hGravity : ∀ s ∈ sites, s.config.gravity = 0) : Still n sites (.atRest x) where
  velocity _ _ := Stacked.node_replicate _ _
  acceleration _ _ := Stacked.node_replicate _ _
  gravity := hGravity

namespace Model

variable {m : Model K} {R : Mat3 K} {c : Vec3 K} {x : Array K}

/-- A rotation and a translation of all positions is a rigid motion. -/
theorem rigid_rotated (hR : R.IsRotation)
    (hLaw : ∀ s ∈ m.sites (.atRest x), s.solid.properties.law ≠ .linearElastic)
    (hx : x.size = m.numDofs) {y y' : Motion K} (hy : y.positions = x)
    (hy' : y'.positions = Stacked.rotated R c x) : Rigid R c m.numNodes (m.sites y) y y' where
  rotation := hR
  law s hs := by
    have hLaws : (m.sites y).map (fun s => s.solid.properties.law) =
        (m.sites (.atRest x)).map fun s => s.solid.properties.law :=
      map_sites_eq (fun _ _ _ _ => rfl) m (.atRest x) y
    obtain ⟨t, ht, hSame⟩ := List.mem_map.mp (hLaws ▸ List.mem_map_of_mem hs)
    rw [← hSame]
    exact hLaw t ht
  node i hi := by
    rw [hy, hy', Stacked.node_rotated hx hi]

/-- Well-formed models without linear elastic materials are objective. -/
theorem WellFormed.objective (hm : m.WellFormed) (hR : R.IsRotation)
    (hLaw : ∀ s ∈ m.sites (.atRest x), s.solid.properties.law ≠ .linearElastic)
    (hx : x.size = m.numDofs) (c : Vec3 K) : m.Objective R c x := by
  have hRotated : (Stacked.rotated R c x).size = m.numDofs := Stacked.size_rotated hx
  have hSized : (Motion.atRest x).Sized m.numDofs := hx ▸ Motion.sized_atRest x
  have hSized' : (Motion.atRest (Stacked.rotated R c x)).Sized m.numDofs :=
    hRotated ▸ Motion.sized_atRest _
  have hRigid {y y' : Motion K} (hy : y.positions = x)
      (hy' : y'.positions = Stacked.rotated R c x) : Rigid R c m.numNodes (m.sites y) y y' :=
    rigid_rotated hR hLaw hx hy hy'
  constructor
  case defined =>
    exact (hRigid rfl rfl).map_sites
      (fun config _ _ he _ hMoved => Site.definedness_rotate hR config he hMoved) hm
  case energy =>
    intro y y' hy hy' hPositions hPositions'
    rw [energyAt_eq hy, energyAt_eq hy']
    exact (hRigid hPositions hPositions').energyOf hm
  case residual =>
    intro hGravity r r' hr hr'
    have hConfigs : (m.sites (.atRest (Stacked.rotated R c x))).map (fun s => s.config) =
        (m.sites (.atRest x)).map fun s => s.config :=
      map_sites_eq (fun _ _ _ _ => rfl) m _ _
    have hGravity' : ∀ s ∈ m.sites (.atRest (Stacked.rotated R c x)), s.config.gravity = 0 := by
      intro s hs
      obtain ⟨t, ht, hSame⟩ := List.mem_map.mp (hConfigs ▸ List.mem_map_of_mem hs)
      rw [← hSame]
      exact hGravity t ht
    rw [residualAt_eq_ok_iff hSized] at hr
    rw [residualAt_eq_ok_iff hSized'] at hr'
    exact Rigid.rotatesResidual hm (hRigid rfl rfl) (.atRest x hGravity) (.atRest _ hGravity')
      Array.size_replicate Array.size_replicate hr hr'
  case stiffness =>
    intro y y' hy hy' hPositions hPositions' A A' hA hA' i j
    rw [tangentAt_eq_ok_iff hm hy] at hA
    rw [tangentAt_eq_ok_iff hm hy'] at hA'
    rw [BlockMatrix.blockAt_toDense, BlockMatrix.blockAt_toDense]
    exact Rigid.turnsStiffness hm (hRigid hPositions hPositions') hA hA' i j
  case evaluated =>
    intro hUnchecked y hy
    exact hUnchecked.evaluated hm hy _

end Model

namespace Workspace

/-- Every model that a program can reach, of any shape and depth and with any parameters, is
objective at all positions, for all rotations and translations, if none of its elements is linear
elastic. The logarithm may be any function. -/
theorem objectivity {W : Workspace K} (hW : W.Reachable) {m : Model K} (hm : m ∈ W.models)
    {x : Array K} (hx : x.size = m.numDofs)
    (hLaw : ∀ s ∈ m.sites (.atRest x), s.solid.properties.law ≠ .linearElastic)
    {R : Mat3 K} (hR : R.IsRotation) (c : Vec3 K) : m.Objective R c x :=
  (hW.sound.wellFormed m hm).objective hR hLaw hx c

/-! ### A program with two materials -/

/-- A Saint Venant-Kirchhoff tetrahedron and a Neo-Hookean one. -/
def shearedCommands : List (Command ℚ Shape.tet4) :=
  [.addCells [⟨0, 0, 0⟩, ⟨1, 0, 0⟩, ⟨0, 1, 0⟩, ⟨0, 0, 1⟩] [.range 4]
    { law := .stVK, lame := ⟨1, 2⟩, density := 1, damping := ⟨1, 2⟩, lumping := .consistent },
   .addCells [⟨2, 0, 0⟩, ⟨4, 0, 0⟩, ⟨2, 1, 0⟩, ⟨2, 0, 3⟩] [.range 4]
    { law := .neoHookean, lame := ⟨3, 1⟩, density := 1, damping := ⟨0, 0⟩, lumping := .rowSum },
   .build]

/-- The model of both tetrahedra, and the identities that are left. -/
def shearedSession : TypedModel ℚ Shape.tet4 × IdSupply :=
  emptyModel.session shearedCommands (TypedModel.ofConfig (κ := Shape.tet4) cornerConfig ⟨0⟩).2

def shearedModel : Model ℚ := .typed shearedSession.1

/-- The models of the program. -/
def sheared : Workspace ℚ where
  ids := shearedSession.2
  models := [shearedModel, .typed emptyModel]
  states := []

theorem reachable_sheared : sheared.Reachable := by
  have hNew := Reachable.step (.start ⟨0⟩) (.newModel _ Shape.tet4 cornerConfig)
  have hCommands : ∀ c ∈ shearedCommands, c.Constructed := by
    simp [shearedCommands]
  exact .step hNew (.session _ (m := emptyModel) List.mem_cons_self hCommands)

/-- Positions of the nodes: both tetrahedra are sheared, and the second one is stretched. -/
def shearedPositions : Array ℚ :=
  Stacked.ofNodes [⟨0, 0, 0⟩, ⟨1, 1, 0⟩, ⟨0, 1, 0⟩, ⟨0, 0, 1⟩, ⟨2, 0, 0⟩, ⟨4, 1, 0⟩,
    ⟨2, 2, 0⟩, ⟨2, 0, 5⟩]

/-- The rotation about the last axis by the angle of a right triangle with sides 3, 4 and 5. -/
def pythagorean : Mat3 ℚ := ⟨3 / 5, -4 / 5, 0, 4 / 5, 3 / 5, 0, 0, 0, 1⟩

/-- The tetrahedra are turned and moved. The Neo-Hookean law is defined before, so it is defined
after the motion; both energies are there and the same; and the force on the last node is turned. -/
theorem objectivity_sheared :
    (∀ d ∈ (shearedModel.sites
        (.atRest (Stacked.rotated pythagorean ⟨1, 2, 3⟩ shearedPositions))).map Site.definedness,
      ∀ y ∈ d, y.2 = (true, true)) ∧
    (∃ E, shearedModel.energyAt (.atRest shearedPositions) = .ok E ∧
      shearedModel.energyAt (.atRest (Stacked.rotated pythagorean ⟨1, 2, 3⟩ shearedPositions)) =
        .ok E) ∧
    ∃ r r', shearedModel.residualAt (.atRest shearedPositions) = .ok r ∧
      shearedModel.residualAt (.atRest (Stacked.rotated pythagorean ⟨1, 2, 3⟩ shearedPositions)) =
        .ok r' ∧
      Stacked.node r' 7 = pythagorean.mulVec (Stacked.node r 7) := by
  have hNodes : shearedModel.numNodes = 8 := by decide +kernel
  have hDofs : shearedModel.numDofs = 24 := by decide +kernel
  have hSize : shearedPositions.size = shearedModel.numDofs := by
    rw [hDofs]
    decide +kernel
  have hObjective := objectivity reachable_sheared List.mem_cons_self hSize (by decide +kernel)
    ⟨by decide +kernel, by decide +kernel⟩ (R := pythagorean) ⟨1, 2, 3⟩
  have hSized := Motion.sized_atRest shearedPositions
  have hSized' := Motion.sized_atRest (Stacked.rotated pythagorean ⟨1, 2, 3⟩ shearedPositions)
  rw [Stacked.size_rotated hSize] at hSized'
  rw [hSize] at hSized
  have hUnchecked : shearedModel.Unchecked :=
    .typed (Config.rejectsNone_of_unchecked (by decide +kernel))
  obtain ⟨⟨E, hEnergy⟩, ⟨r, hResidual⟩, _⟩ := hObjective.evaluated hUnchecked _ hSized
  obtain ⟨_, ⟨r', hResidual'⟩, _⟩ := hObjective.evaluated hUnchecked _ hSized'
  have hSame := hObjective.energy _ _ hSized hSized' rfl rfl
  have hForce := hObjective.residual (by decide +kernel) r r' hResidual hResidual' 7
    (by rw [hNodes]; decide)
  constructor
  · rw [hObjective.defined]
    decide +kernel
  · exact ⟨⟨E, hEnergy, hSame.trans hEnergy⟩, r, r', hResidual, hResidual', hForce⟩

end Workspace

end Elastodynamics
