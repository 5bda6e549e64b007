import Elastodynamics.Model.Builder
/-!
Models of any kind: a model is made of elements of one kind, or of bodies that are models
themselves. Bodies share no nodes. The nodes and the elements of a body follow those of the bodies
before it, so the tangent matrix of a composite model is block diagonal.

A state of a composite model keeps a state for each body in a slot. One more slot per partition says
that this partition has been copied to the bodies; writing a partition empties that slot only, so
what the bodies have computed from the other partitions stays.
-/
namespace Elastodynamics

open Sparse

variable {α : Type} [Scalar α] [ElementFamily α]

namespace System

def contents (s : System α) : Contents α (Value α) := ⟨s.id, s.initial⟩

/-- Copies a partition to the states of bodies with the given systems, piece by piece. -/
def distribute (p : Partition) :
    List (System α) → Array α → List (Contents α (Value α)) → List (Contents α (Value α))
  | part :: parts, x, c :: states =>
    { c with memo := c.memo.write part.dependencies p (x.extract 0 part.numDofs) }
      :: distribute p parts (x.extract part.numDofs) states
  | _, _, states => states

/-- The slot for the states of the bodies, which is never emptied. -/
def bodiesEntry (parts : List (System α)) : Entry α where
  name := "body_states"
  dependencies := .none
  calculation _ := .done (.bodies (parts.map System.contents))

/-- The slot for the fact that a partition has been copied to the bodies. -/
def syncEntry (parts : List (System α)) (p : Partition) : Entry α where
  name := "body_" ++ p.name
  dependencies := .single p
  calculation m := .eval 0 fun
    | .bodies _ =>
      .update 0 (fun v => .bodies (distribute p parts (m.get p) v.bodyStates)) (.done .performed)
    | _ => .fail

/-- The system of a model whose bodies have the given systems. -/
def ofBodies (id : SystemId) (parts : List (System α)) : System α where
  id := id
  referencePositions := (parts.map referencePositions).foldr (· ++ ·) #[]
  entries := [bodiesEntry parts, syncEntry parts .positions, syncEntry parts .velocities,
    syncEntry parts .accelerations]

/-- The states of the bodies with every partition up to date. -/
def evalBodies (s : System α) (memo : Memo α (Value α)) :
    List (Contents α (Value α)) × Memo α (Value α) :=
  let memo := [1, 2, 3].foldl (fun memo i => (memo.eval s.entries i).2) memo
  match memo.eval s.entries 0 with
  | (.ok v, memo) => (v.bodyStates, memo)
  | (.error _, memo) => ([], memo)

end System

inductive Model (α : Type) [ElementFamily α] where
  | typed {κ : Kind α} (model : TypedModel α κ)
  /-- A model made of bodies, with the identity of its system and the blocks of its tangent matrix,
  which are found when the model is made. -/
  | composite (id : SystemId) (pattern : Pattern) (bodies : List (Model α))

namespace Model

def bodies : Model α → List (Model α)
  | typed _ => []
  | composite _ _ bodies => bodies

def systemId : Model α → SystemId
  | typed m => m.systemId
  | composite id _ _ => id

def pattern : Model α → Pattern
  | typed m => m.pattern
  | composite _ P _ => P

mutual

def numNodes : Model α → Nat
  | typed m => m.referencePositions.size
  | composite _ _ bodies => totalNodes bodies

def totalNodes : List (Model α) → Nat
  | [] => 0
  | m :: l => m.numNodes + totalNodes l

end

mutual

def numElements : Model α → Nat
  | typed m => m.elements.size
  | composite _ _ bodies => totalElements bodies

def totalElements : List (Model α) → Nat
  | [] => 0
  | m :: l => m.numElements + totalElements l

end

mutual

/-- The system that states of the model belong to. -/
def system : Model α → System α
  | typed m => m.system
  | composite id _ bodies => .ofBodies id (systems bodies)

def systems : List (Model α) → List (System α)
  | [] => []
  | m :: l => m.system :: systems l

end

def numDofs (m : Model α) : Nat := 3 * m.numNodes

/-- The numbers of nodes before each model of a list, counted from `first`. -/
def nodeOffsets : (first : Nat) → List (Model α) → List Nat
  | _, [] => []
  | first, m :: l => first :: nodeOffsets (first + m.numNodes) l

/-- The numbers of elements before each model of a list, counted from `first`. -/
def elementOffsets : (first : Nat) → List (Model α) → List Nat
  | _, [] => []
  | first, m :: l => first :: elementOffsets (first + m.numElements) l

/-- The blocks of the tangent matrices of a list of models, each moved by the number of nodes before
its model, counted from `first`. -/
def blockEntries : (first : Nat) → List (Model α) → List Coord
  | _, [] => []
  | first, m :: l =>
    m.pattern.entries.toList.map (fun e => (first + e.1, first + e.2))
      ++ blockEntries (first + m.numNodes) l

def ofBodies (bodies : List (Model α)) (ids : IdSupply) : Except ModelError (Model α) × IdSupply :=
  match Pattern.ofEntries (totalNodes bodies) (blockEntries 0 bodies) with
  | .error e => (.error (.ofSparse e), ids)
  | .ok pattern =>
    let (id, ids) := ids.fresh
    (.ok (composite id pattern bodies), ids)

/-- A state of the model: at rest in the reference configuration. -/
def makeState (m : Model α) : State α := .ofSystem m.system

/-- A zero matrix with exactly the blocks of the tangent matrix. -/
def makeTangent (m : Model α) : BlockMatrix α := .ofPattern m.pattern

end Model

end Elastodynamics
