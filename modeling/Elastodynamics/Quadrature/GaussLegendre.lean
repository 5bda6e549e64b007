import Elastodynamics.Quadrature.Rule
/-!
Gauss rules with any number of points in floating point arithmetic. The points are the roots of the
Legendre polynomials, found by Newton's method from the usual trigonometric guess.
-/
namespace Elastodynamics.Quadrature.GaussLegendre

/-- The values of the Legendre polynomials of degree `n` and `n - 1` at `x`. -/
def legendre (n : Nat) (x : Float) : Float × Float :=
  (List.range n).foldl (fun (p, before) k =>
    let k := k.toFloat
    (((2.0 * k + 1.0) * x * p - k * before) / (k + 1.0), p)) (1.0, 0.0)

/-- The derivative of the Legendre polynomial of degree `n` at a point inside of the interval. -/
def slope (n : Nat) (x : Float) : Float :=
  let (p, before) := legendre n x
  n.toFloat * (x * p - before) / (x * x - 1.0)

/-- Newton's method for a root of the Legendre polynomial of degree `n`. -/
def refine (n : Nat) : Nat → Float → Float
  | 0, x => x
  | steps + 1, x => refine n steps (x - (legendre n x).1 / slope n x)

/-- The root with index `i` of the Legendre polynomial of degree `n`; index zero is the largest. -/
def root (n i : Nat) : Float :=
  let guess := Float.cos (3.141592653589793 * (i.toFloat + 0.75) / (n.toFloat + 0.5))
  refine n 20 guess

/-- Weights and points of the rule with `n` points in descending order. The points in the lower half
are the negatives of those in the upper half. -/
def line (n : Nat) : List (Float × Float) :=
  let node (x : Float) : Float × Float :=
    let d := slope n x
    (2.0 / ((1.0 - x * x) * d * d), x)
  let upper := (List.range ((n + 1) / 2)).map fun i => node (root n i)
  upper ++ ((upper.take (n / 2)).map fun (w, x) => (w, -x)).reverse

/-- The Gauss rule of the reference hexahedron with `n` points per dimension; there is none with no
points. -/
def hexahedron (n : Nat) : Option (Rule Float) :=
  if n = 0 then none else some (.tensor (line n))

end Elastodynamics.Quadrature.GaussLegendre
