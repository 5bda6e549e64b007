import Elastodynamics.Model.Composite
/-!
Residual, tangent matrix and elastic energy of a model in one of its states. Every function gives
back the state, in which more slots may be filled than before; the vector or the matrix that it
writes to, which a failure may leave partly written; and whether it succeeded.
-/
namespace Elastodynamics

open Sparse

variable {α : Type} [Scalar α] [ElementFamily α]

namespace Model

/-! ### Checks before an evaluation -/

/-- Checks that a state belongs to the present system of the model. -/
def checkState (m : Model α) (c : Contents α (Value α)) (operation : String) :
    Except ModelError Unit :=
  if c.owner = m.systemId ∧ c.memo.motion.positions.size = m.numDofs then .ok ()
  else .error (.incompatibleState operation)

/-- Checks that a vector has the dimension of the model. -/
def checkVector (m : Model α) (r : Array α) : Except ModelError Unit :=
  if r.size ≠ m.numDofs then .error (.sizeMismatch "residual" m.numDofs r.size) else .ok ()

/-- Checks that a matrix has the dimension of the model and stores every block that it needs. -/
def checkMatrix (m : Model α) (A : BlockMatrix α) : Except ModelError Unit :=
  if A.size ≠ m.numNodes then
    .error (.sizeMismatch "tangent matrix block rows" m.numNodes A.size)
  else
    match A.pattern.firstMissing? m.pattern with
    | some (i, j) => .error (.unallocatedBlock i j)
    | none => .ok ()

def checkResidual (m : Model α) (c : Contents α (Value α)) (r : Array α) :
    Except ModelError Unit := do
  m.checkState c "calc_residual"
  m.checkVector r

/-- What is checked before a tangent matrix is computed. -/
def checkTangent (m : Model α) (c : Contents α (Value α)) (A : BlockMatrix α) :
    Except ModelError Unit := do
  m.checkState c "calc_tangent_matrix"
  m.checkMatrix A

/-- What is checked before an elastic energy is computed. -/
def checkEnergy (m : Model α) (c : Contents α (Value α)) : Except ModelError Unit :=
  m.checkState c "calc_elastic_energy"

/-! ### Evaluation after the checks

The bodies of a composite model are evaluated with checks of their own. -/

mutual

/-- Overwrites a vector with the residual. -/
def residual : Model α → Memo α (Value α) → Array α →
    Memo α (Value α) × Array α × Except ModelError Unit
  | typed m, memo, r => m.residual memo r
  | composite id _ bodies, memo, r =>
    let (states, memo) := (System.ofBodies id (systems bodies)).evalBodies memo
    let (states, r, status) := bodyResiduals 0 bodies states r
    (memo.fill 0 (.bodies states), r, status)

/-- Overwrites a vector with the residuals of bodies, piece by piece, until one of them fails.
Elements are counted from `first`. -/
def bodyResiduals : (first : Nat) → List (Model α) → List (Contents α (Value α)) → Array α →
    List (Contents α (Value α)) × Array α × Except ModelError Unit
  | first, body :: bodies, c :: states, r =>
    let head := r.extract 0 body.numDofs
    let tail := r.extract body.numDofs
    match body.checkResidual c head with
    | .error e => (c :: states, r, .error (e.shiftElement first))
    | .ok () =>
      match body.residual c.memo head with
      | (memo, head, .error e) =>
        ({ c with memo } :: states, head ++ tail, .error (e.shiftElement first))
      | (memo, head, .ok ()) =>
        let (states, tail, status) := bodyResiduals (first + body.numElements) bodies states tail
        ({ c with memo } :: states, head ++ tail, status)
  | _, _, states, r => (states, r, .ok ())

end

/-- Adds matrices of bodies along the diagonal, each with its number of nodes and counted from node
`first`, until an addition is rejected. -/
def addBodies : (first : Nat) → List (Nat × BlockMatrix α) → BlockMatrix α →
    BlockMatrix α × Except ModelError Unit
  | _, [], A => (A, .ok ())
  | first, (n, B) :: l, A =>
    match addStored first B.stored A with
    | (A, .error e) => (A, .error e)
    | (A, .ok ()) => addBodies (first + n) l A
where
  /-- Adds blocks at their coordinates moved by `first`, until an addition is rejected. -/
  addStored (first : Nat) : List (Coord × Mat3 α) → BlockMatrix α →
      BlockMatrix α × Except ModelError Unit
    | [], A => (A, .ok ())
    | ((i, j), B) :: l, A =>
      match A.addToBlock (first + i) (first + j) B with
      | .ok A => addStored first l A
      | .error e => (A, .error (.ofSparse e))

mutual

/-- Adds the weighted tangent matrix. The matrices of all bodies are computed before the first block
is added. -/
def tangent : Model α → Memo α (Value α) → Weights α → BlockMatrix α →
    Memo α (Value α) × BlockMatrix α × Except ModelError Unit
  | typed m, memo, w, A => m.tangent memo w A
  | composite id _ bodies, memo, w, A =>
    let (states, memo) := (System.ofBodies id (systems bodies)).evalBodies memo
    let (states, result) := bodyTangents 0 bodies states w
    let memo := memo.fill 0 (.bodies states)
    match result with
    | .error e => (memo, A, .error e)
    | .ok matrices => (memo, addBodies 0 matrices A)

/-- The weighted tangent matrices of bodies with their numbers of nodes, unless one of them fails.
Elements are counted from `first`. -/
def bodyTangents : (first : Nat) → List (Model α) → List (Contents α (Value α)) → Weights α →
    List (Contents α (Value α)) × Except ModelError (List (Nat × BlockMatrix α))
  | first, body :: bodies, c :: states, w =>
    match body.checkTangent c body.makeTangent with
    | .error e => (c :: states, .error (e.shiftElement first))
    | .ok () =>
      match body.tangent c.memo w body.makeTangent with
      | (memo, _, .error e) => ({ c with memo } :: states, .error (e.shiftElement first))
      | (memo, B, .ok ()) =>
        let (states, rest) := bodyTangents (first + body.numElements) bodies states w
        ({ c with memo } :: states, rest.map ((body.numNodes, B) :: ·))
  | _, _, states, _ => (states, .ok [])

end

mutual

def energy : Model α → Memo α (Value α) → Memo α (Value α) × Except ModelError α
  | typed m, memo => m.energy memo
  | composite id _ bodies, memo =>
    let (states, memo) := (System.ofBodies id (systems bodies)).evalBodies memo
    let (states, result) := bodyEnergies 0 bodies states 0
    (memo.fill 0 (.bodies states), result)

/-- Adds the energies of bodies, unless one of them fails. Elements are counted from `first`. -/
def bodyEnergies : (first : Nat) → List (Model α) → List (Contents α (Value α)) → α →
    List (Contents α (Value α)) × Except ModelError α
  | first, body :: bodies, c :: states, energy =>
    match body.checkEnergy c with
    | .error e => (c :: states, .error (e.shiftElement first))
    | .ok () =>
      match body.energy c.memo with
      | (memo, .error e) => ({ c with memo } :: states, .error (e.shiftElement first))
      | (memo, .ok x) =>
        let (states, result) :=
          bodyEnergies (first + body.numElements) bodies states (energy + x)
        ({ c with memo } :: states, result)
  | _, _, states, energy => (states, .ok energy)

end

/-! ### Checked evaluation of any state -/

/-- Overwrites a vector with the residual `M a + f(x) + D v - M g`. -/
def calcResidual (m : Model α) (s : State α) (r : Array α) :
    State α × Array α × Except ModelError Unit :=
  match m.checkResidual s.contents r with
  | .error e => (s, r, .error e)
  | .ok () =>
    let (memo, r, status) := m.residual s.memo r
    ({ s with memo }, r, status)

/-- The residual as a new vector. -/
def computeResidual (m : Model α) (s : State α) : State α × Except ModelError (Array α) :=
  let (s, r, status) := m.calcResidual s (Array.replicate m.numDofs 0)
  (s, status.map fun _ => r)

/-- Adds the weighted sum of the stiffness, damping and mass matrices to a matrix, whose pattern may
have any further blocks. If there is an error, nothing has been added. -/
def calcTangent (m : Model α) (s : State α) (w : Weights α) (A : BlockMatrix α) :
    State α × BlockMatrix α × Except ModelError Unit :=
  match m.checkTangent s.contents A with
  | .error e => (s, A, .error e)
  | .ok () =>
    let (memo, A, status) := m.tangent s.memo w A
    ({ s with memo }, A, status)

/-- The elastic energy stored in the model. -/
def calcEnergy (m : Model α) (s : State α) : State α × Except ModelError α :=
  match m.checkEnergy s.contents with
  | .error e => (s, .error e)
  | .ok () =>
    let (memo, result) := m.energy s.memo
    ({ s with memo }, result)

end Model

end Elastodynamics
