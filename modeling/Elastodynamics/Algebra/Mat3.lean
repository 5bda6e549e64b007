import Elastodynamics.Algebra.Vec3
/-!
Matrices of size three: deformation gradients, stresses and the node blocks of assembled matrices.
Products and sums contain every term, so an undefined entry spreads as arithmetic says it does.
-/
namespace Elastodynamics

/-- A matrix with three rows and three columns; the first letter of a field names the row. -/
@[ext] structure Mat3 (α : Type) where
  xx : α
  xy : α
  xz : α
  yx : α
  yy : α
  yz : α
  zx : α
  zy : α
  zz : α
deriving Repr, DecidableEq

namespace Mat3

def row {α : Type} (A : Mat3 α) (i : Fin 3) : Vec3 α :=
  match i with
  | 0 => ⟨A.xx, A.xy, A.xz⟩
  | 1 => ⟨A.yx, A.yy, A.yz⟩
  | 2 => ⟨A.zx, A.zy, A.zz⟩

def get {α : Type} (A : Mat3 α) (i j : Fin 3) : α := (A.row i).get j

/-- The matrix whose entry in row `i` and column `j` is `f i j`. -/
def ofFn {α : Type} (f : Fin 3 → Fin 3 → α) : Mat3 α :=
  let rows := Vec3.ofFn fun i => Vec3.ofFn (f i)
  ⟨rows.x.x, rows.x.y, rows.x.z, rows.y.x, rows.y.y, rows.y.z, rows.z.x, rows.z.y, rows.z.z⟩

def repeated {α : Type} (x : α) : Mat3 α := ⟨x, x, x, x, x, x, x, x, x⟩

def transpose {α : Type} (A : Mat3 α) : Mat3 α :=
  ⟨A.xx, A.yx, A.zx, A.xy, A.yy, A.zy, A.xz, A.yz, A.zz⟩

/-- The symmetric matrix with the same entries on and above the main diagonal. -/
def symmetricOfUpper {α : Type} (A : Mat3 α) : Mat3 α :=
  ⟨A.xx, A.xy, A.xz, A.xy, A.yy, A.yz, A.xz, A.yz, A.zz⟩

def toColumns {α : Type} (A : Mat3 α) : List α :=
  [A.xx, A.yx, A.zx, A.xy, A.yy, A.zy, A.xz, A.yz, A.zz]

@[simp] theorem get_ofFn {α : Type} (f : Fin 3 → Fin 3 → α) (i j : Fin 3) :
    (ofFn f).get i j = f i j := by
  match i, j with
  | 0, 0 => rfl
  | 0, 1 => rfl
  | 0, 2 => rfl
  | 1, 0 => rfl
  | 1, 1 => rfl
  | 1, 2 => rfl
  | 2, 0 => rfl
  | 2, 1 => rfl
  | 2, 2 => rfl

@[simp] theorem ofFn_get {α : Type} (A : Mat3 α) : ofFn A.get = A := rfl

@[simp] theorem transpose_transpose {α : Type} (A : Mat3 α) : A.transpose.transpose = A := rfl

theorem get_transpose {α : Type} (A : Mat3 α) (i j : Fin 3) : A.transpose.get i j = A.get j i := by
  match i, j with
  | 0, 0 => rfl
  | 0, 1 => rfl
  | 0, 2 => rfl
  | 1, 0 => rfl
  | 1, 1 => rfl
  | 1, 2 => rfl
  | 2, 0 => rfl
  | 2, 1 => rfl
  | 2, 2 => rfl

variable {α : Type} [Scalar α]

instance : Zero (Mat3 α) := ⟨repeated 0⟩

instance : One (Mat3 α) := ⟨⟨1, 0, 0, 0, 1, 0, 0, 0, 1⟩⟩

instance : Add (Mat3 α) := ⟨fun A B =>
  ⟨A.xx + B.xx, A.xy + B.xy, A.xz + B.xz,
   A.yx + B.yx, A.yy + B.yy, A.yz + B.yz,
   A.zx + B.zx, A.zy + B.zy, A.zz + B.zz⟩⟩

instance : Sub (Mat3 α) := ⟨fun A B =>
  ⟨A.xx - B.xx, A.xy - B.xy, A.xz - B.xz,
   A.yx - B.yx, A.yy - B.yy, A.yz - B.yz,
   A.zx - B.zx, A.zy - B.zy, A.zz - B.zz⟩⟩

instance : Mul (Mat3 α) := ⟨fun A B =>
  ⟨A.xx * B.xx + A.xy * B.yx + A.xz * B.zx,
   A.xx * B.xy + A.xy * B.yy + A.xz * B.zy,
   A.xx * B.xz + A.xy * B.yz + A.xz * B.zz,
   A.yx * B.xx + A.yy * B.yx + A.yz * B.zx,
   A.yx * B.xy + A.yy * B.yy + A.yz * B.zy,
   A.yx * B.xz + A.yy * B.yz + A.yz * B.zz,
   A.zx * B.xx + A.zy * B.yx + A.zz * B.zx,
   A.zx * B.xy + A.zy * B.yy + A.zz * B.zy,
   A.zx * B.xz + A.zy * B.yz + A.zz * B.zz⟩⟩

def scale (A : Mat3 α) (s : α) : Mat3 α :=
  ⟨A.xx * s, A.xy * s, A.xz * s, A.yx * s, A.yy * s, A.yz * s, A.zx * s, A.zy * s, A.zz * s⟩

/-- The matrix with `s` on the main diagonal and zeros elsewhere. -/
def diagonal (s : α) : Mat3 α := ⟨s, 0, 0, 0, s, 0, 0, 0, s⟩

/-- Adds `s` to the entries on the main diagonal only. -/
def addDiagonal (A : Mat3 α) (s : α) : Mat3 α :=
  { A with xx := A.xx + s, yy := A.yy + s, zz := A.zz + s }

/-- The product of a column and a row: entry `(i, j)` is `a i * b j`. -/
def outer (a b : Vec3 α) : Mat3 α :=
  ⟨a.x * b.x, a.x * b.y, a.x * b.z,
   a.y * b.x, a.y * b.y, a.y * b.z,
   a.z * b.x, a.z * b.y, a.z * b.z⟩

def mulVec (A : Mat3 α) (v : Vec3 α) : Vec3 α :=
  ⟨A.xx * v.x + A.xy * v.y + A.xz * v.z,
   A.yx * v.x + A.yy * v.y + A.yz * v.z,
   A.zx * v.x + A.zy * v.y + A.zz * v.z⟩

/-- The sum of the products of corresponding entries. -/
def dot (A B : Mat3 α) : α :=
  A.xx * B.xx + A.xy * B.xy + A.xz * B.xz
    + (A.yx * B.yx + A.yy * B.yy + A.yz * B.yz)
    + (A.zx * B.zx + A.zy * B.zy + A.zz * B.zz)

def trace (A : Mat3 α) : α := A.xx + A.yy + A.zz

/-- The mean of the matrix and its transpose. -/
def symmetricPart (A : Mat3 α) : Mat3 α := (A + A.transpose).scale Scalar.half

def norm (A : Mat3 α) : α := Scalar.sqrt (A.dot A)

/-- The largest absolute value of an entry, taken column by column. -/
def amax (A : Mat3 α) : α :=
  A.toColumns.tail.foldl (fun m x => Scalar.max m (Scalar.abs x)) (Scalar.abs A.xx)

/-- The determinant, expanded along the first row. -/
def det (A : Mat3 α) : α :=
  A.xx * (A.yy * A.zz - A.zy * A.yz) - A.xy * (A.yx * A.zz - A.zx * A.yz)
    + A.xz * (A.yx * A.zy - A.zx * A.yy)

def adjugate (A : Mat3 α) : Mat3 α :=
  ⟨A.yy * A.zz - A.zy * A.yz, A.xz * A.zy - A.zz * A.xy, A.xy * A.yz - A.yy * A.xz,
   A.zx * A.yz - A.yx * A.zz, A.xx * A.zz - A.zx * A.xz, A.xz * A.yx - A.yz * A.xx,
   A.yx * A.zy - A.zx * A.yy, A.xy * A.zx - A.zy * A.xx, A.xx * A.yy - A.yx * A.xy⟩

def divide (A : Mat3 α) (s : α) : Mat3 α :=
  ⟨A.xx / s, A.xy / s, A.xz / s, A.yx / s, A.yy / s, A.yz / s, A.zx / s, A.zy / s, A.zz / s⟩

/-- The inverse matrix by Cramer's rule, unless the determinant is zero. -/
def inverse? (A : Mat3 α) : Option (Mat3 α) :=
  if Scalar.isZero A.det then none else some (A.adjugate.divide A.det)

def isFinite (A : Mat3 α) : Bool := A.toColumns.all Scalar.isFinite

end Mat3

end Elastodynamics
