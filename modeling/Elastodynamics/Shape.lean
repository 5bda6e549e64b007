import Elastodynamics.Algebra.Vec3
import Elastodynamics.Quadrature.Rule
/-!
Reference shapes of elements and their nodal bases. Basis function `a` is one at vertex `a` of the
shape and zero at the others.
-/
namespace Elastodynamics

/-- The shape of an element in reference coordinates. -/
inductive Shape where
  /-- The tetrahedron with four nodes and linear basis functions. -/
  | tet4
  /-- The cube from `-1` to `1` with eight nodes and trilinear basis functions. Nodes run around the
  bottom face counter-clockwise and then around the top face in the same order. -/
  | hex8
deriving Repr, DecidableEq

namespace Shape

def name : Shape → String
  | tet4 => "Tet4"
  | hex8 => "Hex8"

@[reducible] def nodeCount : Shape → Nat
  | tet4 => 4
  | hex8 => 8

variable {α : Type} [Scalar α]

/-- The vertices of the cube: the signs of their coordinates. -/
def cubeSigns : Vector (Vec3 α) 8 :=
  #v[⟨-1, -1, -1⟩, ⟨1, -1, -1⟩, ⟨1, 1, -1⟩, ⟨-1, 1, -1⟩,
     ⟨-1, -1, 1⟩, ⟨1, -1, 1⟩, ⟨1, 1, 1⟩, ⟨-1, 1, 1⟩]

/-- The positions of the nodes in reference coordinates. -/
def vertices : (S : Shape) → Vector (Vec3 α) S.nodeCount
  | tet4 => #v[⟨-1, -1, -1⟩, ⟨1, -1, -1⟩, ⟨-1, 1, -1⟩, ⟨-1, -1, 1⟩]
  | hex8 => cubeSigns

/-- The linear function on the line that is one at `s` and zero at `-s`, for a sign `s`. -/
def hat (s x : α) : α := (1 + s * x) / Scalar.ofNat 2

def hatSlope (s : α) : α := s / Scalar.ofNat 2

def basis : (S : Shape) → Vec3 α → Vector α S.nodeCount
  | tet4, p =>
    let half : α := Scalar.half
    #v[-half * p.x - half * p.y - half * p.z - half,
       half * p.x + half, half * p.y + half, half * p.z + half]
  | hex8, p => cubeSigns.map fun s => hat s.x p.x * hat s.y p.y * hat s.z p.z

/-- The gradients of the basis functions at a point. -/
def gradients : (S : Shape) → Vec3 α → Vector (Vec3 α) S.nodeCount
  | tet4, _ =>
    let half : α := Scalar.half
    #v[⟨-half, -half, -half⟩, ⟨half, 0, 0⟩, ⟨0, half, 0⟩, ⟨0, 0, half⟩]
  | hex8, p => cubeSigns.map fun s =>
    let x := hat s.x p.x
    let y := hat s.y p.y
    let z := hat s.z p.z
    ⟨hatSlope s.x * y * z, x * hatSlope s.y * z, x * y * hatSlope s.z⟩

section

open Quadrature (Rules)

variable {α : Type} [Rules α]

/-- The rule for elastic terms, exact for them on an undistorted element. -/
def stiffnessRule : Shape → Quadrature.Rule α
  | tet4 => Rules.tetrahedronMidpoint
  | hex8 => Rules.hexahedronGaussTwo

/-- The rule for products of basis functions, exact for them on an undistorted element. -/
def massRule : Shape → Quadrature.Rule α
  | tet4 => Rules.tetrahedronDegreeTwo
  | hex8 => Rules.hexahedronGaussTwo

end

/-- Writes the values of the basis functions over a buffer with exactly one place per node. -/
def fillBasis (S : Shape) (buffer : List α) (p : Vec3 α) : Option (List α) :=
  if buffer.length = S.nodeCount then some (S.basis p).toList else none

/-- Writes the gradients of the basis functions over a buffer with exactly one place per node. -/
def fillGradients (S : Shape) (buffer : List (Vec3 α)) (p : Vec3 α) : Option (List (Vec3 α)) :=
  if buffer.length = S.nodeCount then some (S.gradients p).toList else none

end Shape

end Elastodynamics
