import Elastodynamics.Algebra.Mat3
/-!
Dense rectangular matrices. A matrix over `Mat3 α` is a matrix of node blocks; `flatten` and
`toBlocks` pass between it and the matrix of its scalar entries.
-/
namespace Elastodynamics

/-- A matrix with `m` rows and `n` columns of entries from `β`. -/
structure Dense (β : Type) (m n : Nat) where
  rows : Vector (Vector β n) m

namespace Dense

variable {β : Type} {m n : Nat}

def get (A : Dense β m n) (i : Fin m) (j : Fin n) : β := A.rows[i][j]

/-- The matrix whose entry in row `i` and column `j` is `f i j`. -/
def ofFn (f : Fin m → Fin n → β) : Dense β m n :=
  ⟨Vector.ofFn fun i => Vector.ofFn fun j => f i j⟩

def repeated (x : β) : Dense β m n := ⟨Vector.replicate m (Vector.replicate n x)⟩

/-- The entry in row `i` and column `j`, if the matrix has one. -/
def get? (A : Dense β m n) (i j : Nat) : Option β :=
  if h : i < m ∧ j < n then some (A.get ⟨i, h.1⟩ ⟨j, h.2⟩) else none

/-- Replaces the entry in row `i` and column `j`; outside of the matrix nothing happens. -/
def set (A : Dense β m n) (i j : Nat) (x : β) : Dense β m n :=
  if h : i < m then ⟨A.rows.set i (A.rows[i].setIfInBounds j x)⟩ else A

/-- The matrix seen with dimensions that are equal to its own. -/
def cast {m' n' : Nat} (hm : m = m') (hn : n = n') (A : Dense β m n) : Dense β m' n' := hm ▸ hn ▸ A

def toLists (A : Dense β m n) : List (List β) := A.rows.toList.map Vector.toList

@[simp] theorem get_ofFn (f : Fin m → Fin n → β) (i : Fin m) (j : Fin n) :
    (ofFn f).get i j = f i j := by
  simp [get, ofFn]

@[simp] theorem get_repeated (x : β) (i : Fin m) (j : Fin n) :
    (repeated x : Dense β m n).get i j = x := by
  simp [get, repeated]

@[ext] theorem ext {A B : Dense β m n} (h : ∀ i j, A.get i j = B.get i j) : A = B := by
  obtain ⟨a⟩ := A
  obtain ⟨b⟩ := B
  congr 1
  ext i hi j hj
  exact h ⟨i, hi⟩ ⟨j, hj⟩

/-- Splits the index of a scalar row or column into its node and its component. -/
def nodeOf (i : Fin (3 * n)) : Fin n := ⟨i.val / 3, by omega⟩

/-- The component of a scalar row or column within its node. -/
def componentOf (i : Fin (3 * n)) : Fin 3 := ⟨i.val % 3, by omega⟩

/-- The scalar index of a component of a node. -/
def dofOf (a : Fin n) (p : Fin 3) : Fin (3 * n) := ⟨3 * a.val + p.val, by omega⟩

/-- The scalar entries of a matrix of node blocks. -/
def flatten (A : Dense (Mat3 β) m n) : Dense β (3 * m) (3 * n) :=
  ofFn fun i j => (A.get (nodeOf i) (nodeOf j)).get (componentOf i) (componentOf j)

/-- The node blocks of a matrix of scalar entries. -/
def toBlocks (A : Dense β (3 * m) (3 * n)) : Dense (Mat3 β) m n :=
  ofFn fun a b => Mat3.ofFn fun p q => A.get (dofOf a p) (dofOf b q)

@[simp] theorem nodeOf_dofOf (a : Fin n) (p : Fin 3) : nodeOf (dofOf a p) = a := by
  apply Fin.ext
  simp only [nodeOf, dofOf]
  omega

@[simp] theorem componentOf_dofOf (a : Fin n) (p : Fin 3) : componentOf (dofOf a p) = p := by
  apply Fin.ext
  simp only [componentOf, dofOf]
  omega

@[simp] theorem dofOf_nodeOf (i : Fin (3 * n)) : dofOf (nodeOf i) (componentOf i) = i := by
  apply Fin.ext
  simp only [nodeOf, dofOf, componentOf]
  omega

@[simp] theorem toBlocks_flatten (A : Dense (Mat3 β) m n) : A.flatten.toBlocks = A := by
  refine Dense.ext fun a b => ?_
  simp only [flatten, toBlocks, get_ofFn, nodeOf_dofOf, componentOf_dofOf]
  rfl

@[simp] theorem flatten_toBlocks (A : Dense β (3 * m) (3 * n)) : A.toBlocks.flatten = A := by
  refine Dense.ext fun i j => ?_
  simp [flatten, toBlocks]

/-- The matrix with row `a`, column `b` and size three taken at node `a` and node `b`; entries
outside of the matrix are read as zero. -/
def blockAt [Zero β] (A : Dense β m n) (a b : Nat) : Mat3 β :=
  Mat3.ofFn fun p q => (A.get? (3 * a + p.val) (3 * b + q.val)).getD 0

/-- Writes a block of size three at node `a` and node `b`. -/
def setBlock (A : Dense β m n) (a b : Nat) (B : Mat3 β) : Dense β m n :=
  (List.finRange 3).foldl (fun A p =>
    (List.finRange 3).foldl (fun A q => A.set (3 * a + p.val) (3 * b + q.val) (B.get p q)) A) A

end Dense

end Elastodynamics
