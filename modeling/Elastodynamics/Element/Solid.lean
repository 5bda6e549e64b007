import Elastodynamics.Algebra.Dense
import Elastodynamics.Element.Nodes
import Elastodynamics.Element.Properties
import Elastodynamics.Shape
/-!
Solid elements: the reference data of an element, computed once from the reference positions of its
vertices. The geometry is accepted if the Jacobian determinant is not small, relative to the cube of
the norm of the Jacobian, at any quadrature point; so acceptance depends on the form of an element
and not on its size.
-/
namespace Elastodynamics

/-- A quadrature point of an element: its part of the reference volume, and the gradients of the
basis functions in reference positions. -/
structure QuadraturePoint (n : Nat) (α : Type) where
  weight : α
  gradients : Vector (Vec3 α) n

structure Element (S : Shape) (α : Type) where
  /-- The indices of the nodes in the model. -/
  nodes : Vector Nat S.nodeCount
  /-- The quadrature points for elastic terms. -/
  points : List (QuadraturePoint S.nodeCount α)
  /-- The mass shared by each pair of nodes. -/
  mass : Dense α S.nodeCount S.nodeCount
  properties : Properties α

variable {α : Type} [Scalar α]

/-- The gradient of the field with the given values at the nodes, for basis functions with the given
gradients. -/
def fieldGradient {n : Nat} (values gradients : Vector (Vec3 α) n) : Mat3 α :=
  ((List.finRange n).map fun a => Mat3.outer (values.get a) (gradients.get a)).sum

/-- Whether a Jacobian has a determinant that is not finite, or is small for the size of its
entries. -/
def isDegenerate (J : Mat3 α) : Bool :=
  !Scalar.isFinite J.det
    || Scalar.le (Scalar.abs J.det)
      (Scalar.ofNat 100 * Scalar.epsilon * (J.norm * J.norm * J.norm))

def Dense.rowSum {m n : Nat} (A : Dense α m n) (i : Fin m) : α :=
  ((List.finRange n).map fun j => A.get i j).sum

/-- The diagonal matrix of the row sums of a matrix. -/
def Dense.lumped {n : Nat} (A : Dense α n n) : Dense α n n :=
  .ofFn fun i j => if i = j then A.rowSum i else 0

namespace Element

variable {S : Shape}

/-- The quadrature point of an element with vertices `X` that belongs to a weight and a point of the
reference shape. -/
def quadraturePoint (X : Vector (Vec3 α) S.nodeCount) (w : α) (ξ : Vec3 α) :
    Except ElementError (QuadraturePoint S.nodeCount α) :=
  let gradients := S.gradients ξ
  let J := fieldGradient X gradients
  if isDegenerate J then .error .degenerateGeometry
  else
    match J.inverse? with
    | none => .error .degenerateGeometry
    | some K => .ok
      { weight := w * Scalar.abs J.det, gradients := gradients.map K.transpose.mulVec }

/-- The mass that a weight and a point of the reference shape stand for, with the values of the
basis functions there. -/
def massPoint (X : Vector (Vec3 α) S.nodeCount) (density w : α) (ξ : Vec3 α) :
    Except ElementError (α × Vector α S.nodeCount) :=
  let J := fieldGradient X (S.gradients ξ)
  if isDegenerate J then .error .degenerateGeometry
  else .ok (w * Scalar.abs J.det * density, S.basis ξ)

/-- The consistent mass matrix of the given masses and basis values. -/
def consistentMass {n : Nat} (points : List (α × Vector α n)) : Dense α n n :=
  .ofFn fun a b => (points.map fun (m, φ) => φ.get a * φ.get b * m).sum

variable [Quadrature.Rules α]

/-- The element with the given nodes and the reference positions of its vertices, in the same order
as the nodes. -/
def ofVertices (nodes : Vector Nat S.nodeCount) (vertices : List (Vec3 α))
    (properties : Properties α) : Except ElementError (Element S α) :=
  if h : vertices.length = S.nodeCount then do
    let X : Vector (Vec3 α) S.nodeCount := ⟨vertices.toArray, by simpa using h⟩
    let points ← S.stiffnessRule.nodes.mapM fun (w, ξ) => quadraturePoint X w ξ
    let masses ← S.massRule.nodes.mapM fun (w, ξ) => massPoint X properties.density w ξ
    let consistent := consistentMass masses
    let mass :=
      match properties.lumping with
      | .consistent => consistent
      | .rowSum => consistent.lumped
    return { nodes, points, mass, properties }
  else .error (.wrongNodeCount S.nodeCount vertices.length)

/-- An element that was made from nodes and the reference positions of its vertices. There is no
other way to make one. -/
def Constructed (e : Element S α) : Prop :=
  ∃ nodes vertices properties, ofVertices nodes vertices properties = .ok e

omit [Quadrature.Rules α] in
/-- The volume of the element in the reference configuration. -/
def volume (e : Element S α) : α := (e.points.map QuadraturePoint.weight).sum

end Element

end Elastodynamics
