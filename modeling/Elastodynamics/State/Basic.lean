import Elastodynamics.Algebra.Stacked
import Elastodynamics.Error
import Elastodynamics.State.Calculation
/-!
States and the systems that describe them. A system fixes the number of nodes, their reference
positions and the quantities that can be evaluated; it is known by its identity. A state belongs to
one system, and all writes to it go through the functions below, so no slot holds a value of an
earlier motion. The one exception is a change in place that panics before it is complete.
-/
namespace Elastodynamics

/-- What all states of a model have in common. -/
structure System (α : Type) [ElementFamily α] where
  id : SystemId
  /-- The reference positions of the nodes, as a stacked vector. -/
  referencePositions : Array α
  entries : List (Entry α)

namespace System

variable {α : Type} [ElementFamily α]

def numDofs (s : System α) : Nat := s.referencePositions.size

def numNodes (s : System α) : Nat := s.numDofs / 3

def dependencies (s : System α) : List Dependencies := s.entries.map Entry.dependencies

/-- The index of the first slot with the given name. -/
def indexOf? (s : System α) (name : String) : Option Nat :=
  s.entries.findIdx? fun entry => entry.name == name

/-- The contents of a new state: every node at rest at its reference position, all slots empty. -/
def initial [Zero α] (s : System α) : Memo α (Value α) :=
  .fresh (.atRest s.referencePositions) s.entries.length

end System

/-- A motion of the nodes of a system, with the quantities computed from it so far. -/
structure State (α : Type) [ElementFamily α] where
  system : System α
  memo : Memo α (Value α)

namespace State

variable {α : Type} [ElementFamily α]

/-- The state at rest in the reference positions. -/
def ofSystem [Zero α] (s : System α) : State α := ⟨s, s.initial⟩

/-- A copy of the motion, with all slots empty. -/
def clone (s : State α) : State α := ⟨s.system, .fresh s.memo.motion s.system.entries.length⟩

def motion (s : State α) : Motion α := s.memo.motion

/-- The contents of the state with the identity of its system. -/
def contents (s : State α) : Contents α (Value α) := ⟨s.system.id, s.memo⟩

def numDofs (s : State α) : Nat := s.motion.positions.size

def numNodes (s : State α) : Nat := s.numDofs / 3

/-- Replaces a partition by a vector that must have one component per degree of freedom. -/
def set (s : State α) (p : Partition) (x : Array α) : Except ModelError (State α) :=
  if x.size = s.numDofs then .ok { s with memo := s.memo.write s.system.dependencies p x }
  else .error (.sizeMismatch p.name s.numDofs x.size)

/-- Changes every component of a partition by a function of its index and its value. -/
def modify (s : State α) (p : Partition) (f : Nat → α → α) : State α :=
  { s with memo := s.memo.write s.system.dependencies p ((s.motion.get p).mapIdx f) }

/-- What is left of a state if the function that changes a partition in place panics, when it has
made of every component what `f` makes of it so far. The slots that depend on the partition would
have been emptied afterwards, so they keep what they hold. -/
def interrupt (s : State α) (p : Partition) (f : Nat → α → α) : State α :=
  { s with memo := { s.memo with motion := s.motion.set p ((s.motion.get p).mapIdx f) } }

/-- Empties every slot that depends on one of the given partitions. -/
def invalidate (s : State α) (changed : Dependencies) : State α :=
  { s with memo := s.memo.invalidate s.system.dependencies changed }

def isUpToDate (s : State α) (i : Nat) : Bool := s.memo.isFilled i

/-- The value of a slot, computed first if the slot is empty. -/
def evalSlot (s : State α) (i : Nat) : Except EvalError (Value α) × State α :=
  let (result, memo) := s.memo.eval s.system.entries i
  (result, { s with memo })

/-- The value of a slot as `read` sees it. The outer option is empty if the calculation failed, the
inner one if there is no such slot or `read` does not know its value; the slot is filled all the
same. -/
def tryEval {β : Type} (read : Value α → Option β) (s : State α) (i : Nat) :
    Option (Option β) × State α :=
  match s.evalSlot i with
  | (.ok v, s) => (some (read v), s)
  | (.error .noEntry, s) => (some none, s)
  | (.error .failed, s) => (none, s)

/-- The value of a slot as `read` sees it; empty in every other case. -/
def eval {β : Type} (read : Value α → Option β) (s : State α) (i : Nat) : Option β × State α :=
  let (result, s) := tryEval read s i
  (result.join, s)

end State

end Elastodynamics
