/-!
The partitions of a state, and the sets of partitions that quantities depend on.
-/
namespace Elastodynamics

inductive Partition where
  | positions
  | velocities
  | accelerations
deriving Repr, DecidableEq

def Partition.name : Partition → String
  | positions => "positions"
  | velocities => "velocities"
  | accelerations => "accelerations"

structure Dependencies where
  positions : Bool
  velocities : Bool
  accelerations : Bool
deriving Repr, DecidableEq

namespace Dependencies

def none : Dependencies := ⟨false, false, false⟩

def all : Dependencies := ⟨true, true, true⟩

def single : Partition → Dependencies
  | .positions => { none with positions := true }
  | .velocities => { none with velocities := true }
  | .accelerations => { none with accelerations := true }

def has (d : Dependencies) : Partition → Bool
  | .positions => d.positions
  | .velocities => d.velocities
  | .accelerations => d.accelerations

def toList (d : Dependencies) : List Partition :=
  [.positions, .velocities, .accelerations].filter d.has

def union (d e : Dependencies) : Dependencies :=
  ⟨d.positions || e.positions, d.velocities || e.velocities, d.accelerations || e.accelerations⟩

def intersection (d e : Dependencies) : Dependencies :=
  ⟨d.positions && e.positions, d.velocities && e.velocities, d.accelerations && e.accelerations⟩

def isEmpty (d : Dependencies) : Bool := !(d.positions || d.velocities || d.accelerations)

def intersects (d e : Dependencies) : Bool := !(d.intersection e).isEmpty

def contains (d e : Dependencies) : Bool := d.intersection e = e

instance : OrOp Dependencies := ⟨union⟩

end Dependencies

end Elastodynamics
