import Elastodynamics.Model.Typed
/-!
Builders. Nodes and elements are staged in a builder and become part of the model all at once when
it is built. After that the builder is used up. The model of a builder that is never built stays as
it was.
-/
namespace Elastodynamics

/-- A model with nodes and elements that are staged to be added to it. -/
structure Builder (α : Type) [ElementFamily α] (κ : Kind α) where
  model : TypedModel α κ
  pendingNodes : Array (Vec3 α)
  pendingElements : Array (kind κ).Element
  /-- Whether the staged nodes and elements have become part of the model. -/
  built : Bool

variable {α : Type} [Scalar α] [ElementFamily α] {κ : Kind α}

namespace Builder

def ofModel (m : TypedModel α κ) : Builder α κ := ⟨m, #[], #[], false⟩

/-- The number of nodes, staged ones included. -/
def numNodes (b : Builder α κ) : Nat := b.model.referencePositions.size + b.pendingNodes.size

/-- The number of elements, staged ones included. -/
def numElements (b : Builder α κ) : Nat := b.model.elements.size + b.pendingElements.size

/-- The reference position of a node, staged or not. -/
def nodePosition? (b : Builder α κ) (node : Nat) : Option (Vec3 α) :=
  if node < b.model.referencePositions.size then b.model.referencePositions[node]?
  else b.pendingNodes[node - b.model.referencePositions.size]?

/-- Stages a node and gives its index. -/
def addNode (b : Builder α κ) (position : Vec3 α) : Builder α κ × Except ModelError Nat :=
  if b.built then (b, .error .builderConsumed)
  else ({ b with pendingNodes := b.pendingNodes.push position }, .ok b.numNodes)

/-- Stages nodes and gives the index of the first one and the index after the last one. -/
def addNodes (b : Builder α κ) (positions : List (Vec3 α)) :
    Builder α κ × Except ModelError (Nat × Nat) :=
  if b.built then (b, .error .builderConsumed)
  else
    let b' := { b with pendingNodes := b.pendingNodes ++ positions.toArray }
    (b', .ok (b.numNodes, b'.numNodes))

/-- Checks the nodes of elements, which are counted from `first`. -/
def checkElements (numNodes : Nat) : (first : Nat) → List (kind κ).Element → Except ModelError Unit
  | _, [] => .ok ()
  | i, e :: l =>
    match validateNodes ((kind κ).nodes e).toList (kind κ).nodeCount numNodes with
    | .error reason => .error (.invalidElement i reason)
    | .ok () => checkElements numNodes (i + 1) l

/-- Stages an element and gives its index. Only its nodes are checked: that its reference data
belongs to the positions of its nodes is up to the caller. -/
def addElement (b : Builder α κ) (e : (kind κ).Element) : Builder α κ × Except ModelError Nat :=
  if b.built then (b, .error .builderConsumed)
  else
    match checkElements b.numNodes b.numElements [e] with
    | .error err => (b, .error err)
    | .ok () => ({ b with pendingElements := b.pendingElements.push e }, .ok b.numElements)

/-- Stages elements, either all or none, and gives the index of the first one and the index after
the last one. -/
def addElements (b : Builder α κ) (elements : List (kind κ).Element) :
    Builder α κ × Except ModelError (Nat × Nat) :=
  if b.built then (b, .error .builderConsumed)
  else
    match checkElements b.numNodes b.numElements elements with
    | .error err => (b, .error err)
    | .ok () =>
      let b' := { b with pendingElements := b.pendingElements ++ elements.toArray }
      (b', .ok (b.numElements, b'.numElements))

/-- The element on a cell of a list of vertices, whose nodes follow the first `offset` nodes. -/
def elementOfCell (vertices : Array (Vec3 α)) (offset : Nat) (properties : (kind κ).Properties)
    (cell : Vector Nat (kind κ).nodeCount) : Except ElementError (kind κ).Element := do
  validateNodes cell.toList (kind κ).nodeCount vertices.size
  (kind κ).ofVertices (cell.map (offset + ·)) (cell.toList.filterMap fun v => vertices[v]?)
    properties

/-- The elements on a list of cells, counted from `first`. -/
def elementsOfCells (vertices : Array (Vec3 α)) (offset : Nat) (properties : (kind κ).Properties) :
    (first : Nat) → List (Vector Nat (kind κ).nodeCount) → Except ModelError (List (kind κ).Element)
  | _, [] => .ok []
  | i, cell :: cells =>
    match elementOfCell vertices offset properties cell with
    | .error reason => .error (.invalidElement i reason)
    | .ok e => do
      let rest ← elementsOfCells vertices offset properties (i + 1) cells
      return e :: rest

/-- Stages the given vertices as nodes and one element for each cell, whose indices refer to the
vertices. Gives the index of the first element and the index after the last one. If a cell is
rejected, nothing is staged. -/
def addCells (b : Builder α κ) (vertices : List (Vec3 α))
    (cells : List (Vector Nat (kind κ).nodeCount)) (properties : (kind κ).Properties) :
    Builder α κ × Except ModelError (Nat × Nat) :=
  if b.built then (b, .error .builderConsumed)
  else
    match elementsOfCells vertices.toArray b.numNodes properties b.numElements cells with
    | .error err => (b, .error err)
    | .ok elements =>
      match b.addNodes vertices with
      | (b, .error err) => (b, .error err)
      | (b, .ok _) => b.addElements elements

/-- Makes the staged nodes and elements part of the model, which gets a new pattern and a new
system. -/
def build (b : Builder α κ) (ids : IdSupply) : Builder α κ × IdSupply × Except ModelError Unit :=
  if b.built then (b, ids, .error .builderConsumed)
  else
    let (model, ids, status) := b.model.extend b.pendingNodes b.pendingElements ids
    ({ model, pendingNodes := #[], pendingElements := #[], built := true }, ids, status)

end Builder

inductive Command (α : Type) [ElementFamily α] (κ : Kind α) where
  | addNode (position : Vec3 α)
  | addNodes (positions : List (Vec3 α))
  | addElement (e : (kind κ).Element)
  | addElements (elements : List (kind κ).Element)
  | addCells (vertices : List (Vec3 α)) (cells : List (Vector Nat (kind κ).nodeCount))
      (properties : (kind κ).Properties)
  | build

/-- What a builder answers to a command that it accepts. -/
inductive Reply where
  /-- The index of a new node or element. -/
  | index (i : Nat)
  /-- The index of the first new node or element and the index after the last one. -/
  | range (first last : Nat)
  | done
deriving Repr, DecidableEq

def Builder.execute (b : Builder α κ) (ids : IdSupply) :
    Command α κ → Builder α κ × IdSupply × Except ModelError Reply
  | .addNode position =>
    let (b, reply) := b.addNode position
    (b, ids, reply.map .index)
  | .addNodes positions =>
    let (b, reply) := b.addNodes positions
    (b, ids, reply.map fun (first, last) => .range first last)
  | .addElement e =>
    let (b, reply) := b.addElement e
    (b, ids, reply.map .index)
  | .addElements elements =>
    let (b, reply) := b.addElements elements
    (b, ids, reply.map fun (first, last) => .range first last)
  | .addCells vertices cells properties =>
    let (b, reply) := b.addCells vertices cells properties
    (b, ids, reply.map fun (first, last) => .range first last)
  | .build =>
    let (b, ids, status) := b.build ids
    (b, ids, status.map fun _ => .done)

end Elastodynamics
