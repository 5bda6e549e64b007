import Elastodynamics.Algebra.Dense
import Elastodynamics.Algebra.Stacked
import Elastodynamics.Element.Nodes
import Elastodynamics.State.Partition
/-!
Kinds of elements. A model asks few things of its elements: which nodes they have, what they compute
once from the motion of these nodes, and how much of it they add to the residual, the matrices and
the energy. Whatever elements compute, the model evaluates and keeps it in the same way, so models
are made of elements of any kind.
-/
namespace Elastodynamics

/-- The motion of the nodes of one element. -/
structure LocalMotion (n : Nat) (α : Type) where
  positions : Vector (Vec3 α) n
  velocities : Vector (Vec3 α) n
  accelerations : Vector (Vec3 α) n

def LocalMotion.get {n : Nat} {α : Type} (m : LocalMotion n α) : Partition → Vector (Vec3 α) n
  | .positions => m.positions
  | .velocities => m.velocities
  | .accelerations => m.accelerations

/-- The weights of stiffness, damping and mass in a tangent matrix. -/
structure Weights (α : Type) where
  stiffness : α
  damping : α
  mass : α
deriving Repr, DecidableEq

def Weights.isZero {α : Type} [Scalar α] (w : Weights α) : Bool :=
  Scalar.isZero w.stiffness && Scalar.isZero w.damping && Scalar.isZero w.mass

/-- A kind of elements. -/
structure ElementKind (α : Type) where
  /-- The number of nodes of every element. -/
  nodeCount : Nat
  Element : Type
  /-- What an element computes from the motion of its nodes and keeps for all evaluations. -/
  Data : Type
  nodes : Element → Vector Nat nodeCount
  /-- The partitions that data are computed from. -/
  dependencies : Dependencies
  computeData : Element → LocalMotion nodeCount α → Data
  /-- The part of an element in the residual, for the given gravity. -/
  residual : Element → Data → LocalMotion nodeCount α → Vec3 α → Vector (Vec3 α) nodeCount
  /-- Adds a multiple of the stiffness matrix. -/
  addStiffness : Element → Data → α →
    Dense (Mat3 α) nodeCount nodeCount → Dense (Mat3 α) nodeCount nodeCount
  /-- Adds a multiple of the damping matrix. -/
  addDamping : Element → Data → α →
    Dense (Mat3 α) nodeCount nodeCount → Dense (Mat3 α) nodeCount nodeCount
  /-- Adds a multiple of the mass matrix, which does not depend on the motion. -/
  addMass : Element → α →
    Dense (Mat3 α) nodeCount nodeCount → Dense (Mat3 α) nodeCount nodeCount
  energy : Element → Data → α
  /-- What elements on cells have in common. The type is empty if there are none. -/
  Properties : Type
  /-- The element with the given nodes and the reference positions of its vertices. -/
  ofVertices : Vector Nat nodeCount → List (Vec3 α) → Properties → Except ElementError Element
  /-- What the ways to make an element guarantee. -/
  Constructed : Element → Prop
  computeData_congr : ∀ e {m m' : LocalMotion nodeCount α},
    (∀ p, dependencies.has p = true → m.get p = m'.get p) → computeData e m = computeData e m'
  nodes_of_ofVertices : ∀ {indices vertices properties e},
    ofVertices indices vertices properties = .ok e → nodes e = indices
  constructed_of_ofVertices : ∀ {indices vertices properties e},
    ofVertices indices vertices properties = .ok e → Constructed e

/-- The kinds of elements that there are over a scalar type. -/
class ElementFamily (α : Type) where
  Kind : Type
  decEq : DecidableEq Kind
  kind : Kind → ElementKind α

export ElementFamily (Kind kind)

instance {α : Type} [ElementFamily α] : DecidableEq (Kind α) := ElementFamily.decEq

/-- Adds the weighted sum of the stiffness, damping and mass matrices of an element. A zero weight
leaves its term out. -/
def ElementKind.addTangent {α : Type} [Scalar α] (E : ElementKind α) (e : E.Element) (data : E.Data)
    (w : Weights α) (A : Dense (Mat3 α) E.nodeCount E.nodeCount) :
    Dense (Mat3 α) E.nodeCount E.nodeCount :=
  let A := if Scalar.isZero w.stiffness then A else E.addStiffness e data w.stiffness A
  let A := if Scalar.isZero w.damping then A else E.addDamping e data w.damping A
  if Scalar.isZero w.mass then A else E.addMass e w.mass A

end Elastodynamics
