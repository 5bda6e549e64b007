import Elastodynamics.Element.Kind
import Elastodynamics.State.Identity
/-!
The contents of a state: the motion of all nodes, and one slot for each quantity that can be
computed from it. A slot is empty until its quantity is computed, and it is emptied again when a
partition that the quantity depends on is written.
-/
namespace Elastodynamics

/-- The motion of all nodes, each partition as a stacked vector. -/
structure Motion (α : Type) where
  positions : Array α
  velocities : Array α
  accelerations : Array α

namespace Motion

variable {α : Type}

def get (m : Motion α) : Partition → Array α
  | .positions => m.positions
  | .velocities => m.velocities
  | .accelerations => m.accelerations

def set (m : Motion α) (p : Partition) (x : Array α) : Motion α :=
  match p with
  | .positions => { m with positions := x }
  | .velocities => { m with velocities := x }
  | .accelerations => { m with accelerations := x }

/-- Every node at rest at its given position. -/
def atRest [Zero α] (positions : Array α) : Motion α where
  positions := positions
  velocities := Array.replicate positions.size 0
  accelerations := Array.replicate positions.size 0

/-- The motion of the nodes of one element. -/
def restrict [Scalar α] (m : Motion α) {n : Nat} (nodes : Vector Nat n) : LocalMotion n α where
  positions := Stacked.gather nodes m.positions
  velocities := Stacked.gather nodes m.velocities
  accelerations := Stacked.gather nodes m.accelerations

end Motion

/-- The data of an element in a motion of all nodes. -/
def ElementKind.dataAt {α : Type} [Scalar α] (E : ElementKind α) (e : E.Element) (m : Motion α) :
    E.Data :=
  E.computeData e (m.restrict (E.nodes e))

/-- A motion with slots for values of type `ν`. -/
structure Memo (α ν : Type) where
  motion : Motion α
  /-- The value in each slot, if the slot is filled. -/
  slots : List (Option ν)
  /-- How often the computation of each slot has been started. -/
  runs : List Nat

namespace Memo

variable {α ν : Type}

def fresh (motion : Motion α) (count : Nat) : Memo α ν where
  motion := motion
  slots := List.replicate count none
  runs := List.replicate count 0

/-- The value in a slot, if the slot exists and is filled. -/
def slot? (m : Memo α ν) (i : Nat) : Option ν := m.slots[i]?.join

def isFilled (m : Memo α ν) (i : Nat) : Bool := (m.slot? i).isSome

def fill (m : Memo α ν) (i : Nat) (v : ν) : Memo α ν := { m with slots := m.slots.set i (some v) }

/-- Changes the value in a slot, if the slot is filled. -/
def update (m : Memo α ν) (i : Nat) (f : ν → ν) : Memo α ν :=
  { m with slots := m.slots.modify i (Option.map f) }

/-- Counts one more start of the computation of a slot. -/
def start (m : Memo α ν) (i : Nat) : Memo α ν := { m with runs := m.runs.modify i (· + 1) }

/-- Empties the slots whose dependencies share a partition with the given ones. -/
def clear (changed : Dependencies) : List Dependencies → List (Option ν) → List (Option ν)
  | d :: dependencies, v :: slots =>
    (if d.intersects changed then none else v) :: clear changed dependencies slots
  | _, slots => slots

/-- Empties every slot that depends on one of the given partitions. -/
def invalidate (m : Memo α ν) (dependencies : List Dependencies) (changed : Dependencies) :
    Memo α ν :=
  { m with slots := clear changed dependencies m.slots }

/-- Replaces a partition and empties every slot that depends on it. -/
def write (m : Memo α ν) (dependencies : List Dependencies) (p : Partition) (x : Array α) :
    Memo α ν :=
  invalidate { m with motion := m.motion.set p x } dependencies (.single p)

end Memo

/-- The contents of a state together with the identity of the system that it belongs to. -/
structure Contents (α ν : Type) where
  owner : SystemId
  memo : Memo α ν

/-- The kinds of values that slots hold. -/
inductive Value (α : Type) [ElementFamily α] where
  | scalar (x : α)
  | count (n : Nat)
  /-- The data of every element of a model, for elements of kind `κ`. -/
  | elements (κ : Kind α) (data : List (kind κ).Data)
  /-- The contents of a state for each body of a composite model. -/
  | bodies (states : List (Contents α (Value α)))
  /-- Nothing beyond the fact that the computation has taken place. -/
  | performed

namespace Value

variable {α : Type} [ElementFamily α]

def scalar? : Value α → Option α
  | scalar x => some x
  | _ => none

def count? : Value α → Option Nat
  | count n => some n
  | _ => none

/-- The data of elements of kind `κ`; there are none in other values. -/
def elementData (κ : Kind α) : Value α → List (kind κ).Data
  | elements κ' data => if h : κ' = κ then h ▸ data else []
  | _ => []

/-- The contents of the states of the bodies; there are none in other values. -/
def bodyStates : Value α → List (Contents α (Value α))
  | bodies states => states
  | _ => []

end Value

end Elastodynamics
