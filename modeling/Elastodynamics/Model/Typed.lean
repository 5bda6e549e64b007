import Elastodynamics.Model.Config
import Elastodynamics.Sparse.BlockMatrix
import Elastodynamics.State.Basic
/-!
Models made of elements of one kind. Residuals, energies and tangent matrices are sums over the
elements in the order in which they were added.
-/
namespace Elastodynamics

open Sparse

structure TypedModel (α : Type) [ElementFamily α] (κ : Kind α) where
  elements : Array (kind κ).Element
  referencePositions : Array (Vec3 α)
  /-- The blocks of the tangent matrix: one for every two nodes of a common element. -/
  pattern : Pattern
  config : Config α
  /-- The identity of the system that states of this model belong to. -/
  systemId : SystemId

variable {α : Type} [Scalar α] [ElementFamily α] {κ : Kind α}

namespace TypedModel

/-- The slot for the data of all elements. -/
def elementDataEntry (elements : List (kind κ).Element) : Entry α where
  name := "element_data"
  dependencies := (kind κ).dependencies
  calculation m := .done (.elements κ (elements.map fun e => (kind κ).dataAt e m))

/-- The system of the model. Its only slot holds the data of the elements. -/
def system (m : TypedModel α κ) : System α where
  id := m.systemId
  referencePositions := Stacked.ofNodes m.referencePositions.toList
  entries := [elementDataEntry m.elements.toList]

/-- A model without nodes. It takes an identity for the system without slots and a second one for
the system with the slot of its elements. -/
def ofConfig (config : Config α) (ids : IdSupply) : TypedModel α κ × IdSupply :=
  let (_, ids) := ids.fresh
  let (id, ids) := ids.fresh
  ({ elements := #[], referencePositions := #[], pattern := .empty 0, config, systemId := id }, ids)

/-- Appends nodes and elements. The model gets a new pattern and a new system. -/
def extend (m : TypedModel α κ) (nodes : Array (Vec3 α)) (elements : Array (kind κ).Element)
    (ids : IdSupply) : TypedModel α κ × IdSupply × Except ModelError Unit :=
  let m := { m with
    referencePositions := m.referencePositions ++ nodes
    elements := m.elements ++ elements }
  match Pattern.ofElements m.referencePositions.size
      (m.elements.toList.map fun e => ((kind κ).nodes e).toList) with
  | .error e => (m, ids, .error (.ofSparse e))
  | .ok pattern =>
    let (id, ids) := ids.fresh
    ({ m with pattern, systemId := id }, ids, .ok ())

/-- The elements with their data, which is evaluated first if necessary. -/
def evalElements (m : TypedModel α κ) (memo : Memo α (Value α)) :
    List ((kind κ).Element × (kind κ).Data) × Memo α (Value α) :=
  let (result, memo) := memo.eval m.system.entries 0
  let data := match result with
    | .ok v => v.elementData κ
    | .error _ => []
  (m.elements.toList.zip data, memo)

/-! ### Residual -/

/-- Adds the residuals of elements, counted from `i`, until one of them is not finite. -/
def addResiduals (config : Config α) (motion : Motion α) :
    Nat → List ((kind κ).Element × (kind κ).Data) → Array α →
      Array α × Except ModelError Unit
  | _, [], r => (r, .ok ())
  | i, (e, data) :: l, r =>
    let f := (kind κ).residual e data (motion.restrict ((kind κ).nodes e)) config.gravity
    if config.checkNumerics && !f.all Vec3.isFinite then
      (r, .error (.numericFailure i "residual"))
    else addResiduals config motion (i + 1) l (Stacked.scatter ((kind κ).nodes e) f r)

/-- Overwrites a vector with the residual of the model. After a failure it holds the sum over the
elements before the failing one. -/
def residual (m : TypedModel α κ) (memo : Memo α (Value α)) (r : Array α) :
    Memo α (Value α) × Array α × Except ModelError Unit :=
  let (elements, memo) := m.evalElements memo
  let (r, status) := addResiduals m.config memo.motion 0 elements (Array.replicate r.size 0)
  (memo, r, status)

/-! ### Tangent matrix -/

/-- Whether every entry of a matrix of node blocks is finite. -/
def isFinite {n : Nat} (A : Dense (Mat3 α) n n) : Bool :=
  A.rows.all fun row => row.all Mat3.isFinite

/-- The weighted matrices of elements, counted from `i`, unless one of them is not finite. -/
def localTangents (config : Config α) (w : Weights α) :
    Nat → List ((kind κ).Element × (kind κ).Data) → Except ModelError
      (List ((kind κ).Element × Dense (Mat3 α) (kind κ).nodeCount (kind κ).nodeCount))
  | _, [] => .ok []
  | i, (e, data) :: l =>
    let A := (kind κ).addTangent e data w (.repeated 0)
    if config.checkNumerics && !isFinite A then .error (.numericFailure i "tangent matrix")
    else do
      let rest ← localTangents config w (i + 1) l
      return (e, A) :: rest

/-- Adds matrices of elements at the blocks of their nodes, until an addition is rejected. -/
def addTangents :
    List ((kind κ).Element × Dense (Mat3 α) (kind κ).nodeCount (kind κ).nodeCount) →
      BlockMatrix α → BlockMatrix α × Except ModelError Unit
  | [], A => (A, .ok ())
  | (e, L) :: l, A =>
    match A.addToBlocks ((kind κ).nodes e).toList L.flatten with
    | .ok A => addTangents l A
    | .error err => (A, .error (.ofSparse err))

/-- Adds the weighted sum of the stiffness, damping and mass matrices of the model. All matrices of
elements are computed before the first one is added; if all weights are zero, none is computed. -/
def tangent (m : TypedModel α κ) (memo : Memo α (Value α)) (w : Weights α) (A : BlockMatrix α) :
    Memo α (Value α) × BlockMatrix α × Except ModelError Unit :=
  if w.isZero then (memo, A, .ok ())
  else
    let (elements, memo) := m.evalElements memo
    match localTangents m.config w 0 elements with
    | .error e => (memo, A, .error e)
    | .ok tangents => (memo, addTangents tangents A)

/-! ### Energy -/

/-- Adds the energies of elements, counted from `i`, unless one of them is not finite. -/
def addEnergies (config : Config α) :
    Nat → List ((kind κ).Element × (kind κ).Data) → α → Except ModelError α
  | _, [], energy => .ok energy
  | i, (e, data) :: l, energy =>
    let x := (kind κ).energy e data
    if config.checkNumerics && !Scalar.isFinite x then
      .error (.numericFailure i "elastic energy")
    else addEnergies config (i + 1) l (energy + x)

def energy (m : TypedModel α κ) (memo : Memo α (Value α)) :
    Memo α (Value α) × Except ModelError α :=
  let (elements, memo) := m.evalElements memo
  (memo, addEnergies m.config 0 elements 0)

end TypedModel

end Elastodynamics
