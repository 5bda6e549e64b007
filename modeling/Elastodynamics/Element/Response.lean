import Elastodynamics.Element.Kind
import Elastodynamics.Element.Solid
import Elastodynamics.Material.Contractions
/-!
The mechanical response of an element. What depends on the positions of its nodes only is computed
first and may be kept; residuals and matrices are computed from it.
-/
namespace Elastodynamics

/-- What the positions of the nodes of an element determine. -/
structure ElementData (n : Nat) (α : Type) where
  /-- The deformation gradient at each quadrature point. -/
  deformations : List (Mat3 α)
  stresses : List (Mat3 α)
  energy : α
  /-- The derivative of the internal forces by the positions, in node blocks. -/
  stiffness : Dense (Mat3 α) n n

variable {α : Type} [Scalar α]

/-- The symmetric matrix with the same scalar entries on and above the main diagonal. -/
def Dense.symmetricOfUpper {n : Nat} (A : Dense (Mat3 α) n n) : Dense (Mat3 α) n n :=
  .ofFn fun I J =>
    if I < J then A.get I J
    else if J < I then (A.get J I).transpose
    else (A.get I I).symmetricOfUpper

namespace Element

variable {S : Shape}

/-- The deformation gradient at a quadrature point for the given positions of the nodes. -/
def deformation (x : Vector (Vec3 α) S.nodeCount) (q : QuadraturePoint S.nodeCount α) : Mat3 α :=
  fieldGradient x q.gradients

/-- The blocks of the stiffness matrix on and above the diagonal: the sum of the contractions over
the quadrature points, with the deformation gradient at each. -/
def accumulatedStiffness {n : Nat} (law : Law) (lame : Lame α)
    (states : List (QuadraturePoint n α × Mat3 α)) : Dense (Mat3 α) n n :=
  states.foldl (fun K (q, F) => Dense.addUpper K (law.contractions lame q.weight F q.gradients))
    (Dense.repeated 0)

/-- The data of an element whose nodes are at the given positions. The stiffness matrix is
accumulated on and above the diagonal and then completed by symmetry. -/
def computeData (e : Element S α) (x : Vector (Vec3 α) S.nodeCount) : ElementData S.nodeCount α :=
  let law := e.properties.law
  let lame := e.properties.lame
  let deformations := e.points.map (deformation x)
  let states := e.points.zip deformations
  { deformations
    stresses := deformations.map (law.stress lame)
    energy := (states.map fun (q, F) => q.weight * law.energy lame F).sum
    stiffness := (accumulatedStiffness law lame states).symmetricOfUpper }

/-- The force on node `b` from inertia, mass-proportional damping and gravity. -/
def inertialForce (e : Element S α) (m : LocalMotion S.nodeCount α) (gravity : Vec3 α)
    (b : Fin S.nodeCount) : Vec3 α :=
  let α' := e.properties.damping.massCoefficient
  ((List.finRange S.nodeCount).map fun a =>
    (m.accelerations.get a + (m.velocities.get a).scale α').scale (e.mass.get a b)).sum
  - gravity.scale (e.mass.rowSum b)

def elasticForce (e : Element S α) (data : ElementData S.nodeCount α) (b : Fin S.nodeCount) :
    Vec3 α :=
  ((e.points.zip data.stresses).map fun (q, P) => (P.mulVec (q.gradients.get b)).scale q.weight).sum

/-- The stiffness matrix applied to the velocities, at node `b`. -/
def stiffnessVelocity (data : ElementData S.nodeCount α) (m : LocalMotion S.nodeCount α)
    (b : Fin S.nodeCount) : Vec3 α :=
  ((List.finRange S.nodeCount).map fun c =>
    (data.stiffness.get b c).mulVec (m.velocities.get c)).sum

/-- The part of the element in the residual
`M a + f(x) + (α M + β K(x)) v - M g`, node by node. A zero coefficient `β` leaves its term out. -/
def residual (e : Element S α) (data : ElementData S.nodeCount α) (m : LocalMotion S.nodeCount α)
    (gravity : Vec3 α) : Vector (Vec3 α) S.nodeCount :=
  let β := e.properties.damping.stiffnessCoefficient
  Vector.ofFn fun b =>
    let undamped := e.inertialForce m gravity b + e.elasticForce data b
    if Scalar.isZero β then undamped
    else undamped + (stiffnessVelocity data m b).scale β

def addStiffness (data : ElementData S.nodeCount α) (s : α)
    (A : Dense (Mat3 α) S.nodeCount S.nodeCount) : Dense (Mat3 α) S.nodeCount S.nodeCount :=
  .ofFn fun a b => A.get a b + (data.stiffness.get a b).scale s

/-- Adds a multiple of the mass matrix, whose blocks are multiples of the identity. -/
def addMass (e : Element S α) (s : α)
    (A : Dense (Mat3 α) S.nodeCount S.nodeCount) : Dense (Mat3 α) S.nodeCount S.nodeCount :=
  .ofFn fun a b => (A.get a b).addDiagonal (s * e.mass.get a b)

/-- Adds a multiple of the damping matrix `α M + β K`. A zero coefficient leaves its term out. -/
def addDamping (e : Element S α) (data : ElementData S.nodeCount α) (s : α)
    (A : Dense (Mat3 α) S.nodeCount S.nodeCount) : Dense (Mat3 α) S.nodeCount S.nodeCount :=
  let d := e.properties.damping
  let A := if Scalar.isZero d.massCoefficient then A else e.addMass (s * d.massCoefficient) A
  if Scalar.isZero d.stiffnessCoefficient then A
  else addStiffness data (s * d.stiffnessCoefficient) A

end Element

/-! ### Solid elements as a kind -/

section

variable [Quadrature.Rules α]

theorem Element.nodes_of_ofVertices {S : Shape} {nodes : Vector Nat S.nodeCount}
    {vertices : List (Vec3 α)} {properties : Properties α} {e : Element S α}
    (h : ofVertices nodes vertices properties = .ok e) : e.nodes = nodes := by
  rw [ofVertices] at h
  split at h
  · simp only [bind, Except.bind] at h
    repeat' split at h
    all_goals cases h <;> rfl
  · cases h

/-- Solid elements of a shape. Their data depend on positions only. -/
@[reducible] def Shape.solid (S : Shape) : ElementKind α where
  nodeCount := S.nodeCount
  Element := Element S α
  Data := ElementData S.nodeCount α
  nodes := Element.nodes
  dependencies := .single .positions
  computeData e m := e.computeData m.positions
  residual := Element.residual
  addStiffness _ := Element.addStiffness
  addDamping := Element.addDamping
  addMass := Element.addMass
  energy _ := ElementData.energy
  Properties := Properties α
  ofVertices := Element.ofVertices
  Constructed := Element.Constructed
  computeData_congr e _ _ h := congrArg e.computeData (h .positions rfl)
  nodes_of_ofVertices := Element.nodes_of_ofVertices
  constructed_of_ofVertices h := ⟨_, _, _, h⟩

/-- Solid elements of both shapes. -/
instance : ElementFamily α where
  Kind := Shape
  decEq := inferInstance
  kind := Shape.solid

end

end Elastodynamics
