import Elastodynamics.Algebra.Vec3
/-!
Quadrature rules on the reference tetrahedron, with vertices `(-1, -1, -1)`, `(1, -1, -1)`, `(-1, 1,
-1)` and `(-1, -1, 1)`, and on the reference hexahedron, the cube from `-1` to `1`. Elements may be
integrated with any rules; those in closed form are used unless other ones are given.
-/
namespace Elastodynamics.Quadrature

/-- Weights and points of a quadrature rule, in corresponding order. -/
structure Rule (α : Type) where
  weights : List α
  points : List (Vec3 α)
deriving Repr

namespace Rule

variable {α : Type}

/-- The points with their weights; what is left over of the longer list takes no part. -/
def nodes (R : Rule α) : List (α × Vec3 α) := R.weights.zip R.points

variable [Scalar α]

/-- The weighted sum of the values of a function at the points of the rule. -/
def integrate (R : Rule α) (f : Vec3 α → α) : α := (R.nodes.map fun (w, p) => f p * w).sum

/-- The rule of all triples of points of a rule on the line from `-1` to `1`, which is given by its
weights and points. The first coordinate varies slowest. -/
def tensor (line : List (α × α)) : Rule α :=
  let nodes := line.flatMap fun (u, x) => line.flatMap fun (v, y) => line.map fun (w, z) =>
    (u * v * w, (⟨x, y, z⟩ : Vec3 α))
  ⟨nodes.map Prod.fst, nodes.map Prod.snd⟩

/-- The midpoint rule of the reference tetrahedron, exact for polynomials of degree one. -/
def tetrahedronMidpoint : Rule α where
  weights := [Scalar.ofNat 4 / Scalar.ofNat 3]
  points := [⟨-Scalar.half, -Scalar.half, -Scalar.half⟩]

/-- The rule of the reference tetrahedron with four points, each near one vertex, that is exact for
polynomials of degree two. -/
def tetrahedronDegreeTwo : Rule α :=
  let five : α := Scalar.ofNat 5
  let p := -((five + Scalar.sqrt five) / Scalar.ofNat 10)
  let q := (Scalar.ofNat 3 * Scalar.sqrt five - five) / Scalar.ofNat 10
  { weights := List.replicate 4 (1 / Scalar.ofNat 3)
    points := [⟨p, p, q⟩, ⟨p, q, p⟩, ⟨q, p, p⟩, ⟨p, p, p⟩] }

/-- The Gauss rule of the reference hexahedron with two points per dimension, exact for polynomials
of degree three in each coordinate. -/
def hexahedronGaussTwo : Rule α :=
  let r := 1 / Scalar.sqrt (Scalar.ofNat 3)
  tensor [(1, r), (1, -r)]

end Rule

/-- The rules that elements are integrated with. They come from tables, so what is needed of their
weights and points is said where it matters. -/
class Rules (α : Type) where
  /-- The rule of the reference tetrahedron for polynomials of degree one. -/
  tetrahedronMidpoint : Rule α
  /-- The rule of the reference tetrahedron for polynomials of degree two. -/
  tetrahedronDegreeTwo : Rule α
  /-- The Gauss rule of the reference hexahedron with two points per dimension. -/
  hexahedronGaussTwo : Rule α

instance (priority := low) Rules.closedForms {α : Type} [Scalar α] : Rules α :=
  ⟨.tetrahedronMidpoint, .tetrahedronDegreeTwo, .hexahedronGaussTwo⟩

inductive Error where
  /-- No tabulated rule is exact for polynomials of the wanted degree. -/
  | noRuleAvailable
deriving Repr, DecidableEq

def Error.message : Error → String
  | .noRuleAvailable =>
    "There is no quadrature rule satisfying the requirements available"

end Elastodynamics.Quadrature
