import Elastodynamics.Scalar
/-!
Vectors of space: positions, velocities, forces and gradients.
-/
namespace Elastodynamics

@[ext] structure Vec3 (α : Type) where
  x : α
  y : α
  z : α
deriving Repr, DecidableEq

namespace Vec3

def get {α : Type} (v : Vec3 α) (i : Fin 3) : α :=
  match i with
  | 0 => v.x
  | 1 => v.y
  | 2 => v.z

def ofFn {α : Type} (f : Fin 3 → α) : Vec3 α := ⟨f 0, f 1, f 2⟩

def toList {α : Type} (v : Vec3 α) : List α := [v.x, v.y, v.z]

@[simp] theorem get_ofFn {α : Type} (f : Fin 3 → α) (i : Fin 3) : (ofFn f).get i = f i := by
  match i with
  | 0 => rfl
  | 1 => rfl
  | 2 => rfl

@[simp] theorem length_toList {α : Type} (v : Vec3 α) : v.toList.length = 3 := rfl

variable {α : Type} [Scalar α]

instance : Zero (Vec3 α) := ⟨⟨0, 0, 0⟩⟩
instance : Add (Vec3 α) := ⟨fun a b => ⟨a.x + b.x, a.y + b.y, a.z + b.z⟩⟩
instance : Sub (Vec3 α) := ⟨fun a b => ⟨a.x - b.x, a.y - b.y, a.z - b.z⟩⟩

def scale (v : Vec3 α) (s : α) : Vec3 α := ⟨v.x * s, v.y * s, v.z * s⟩

def dot (a b : Vec3 α) : α := a.x * b.x + a.y * b.y + a.z * b.z

def isFinite (v : Vec3 α) : Bool :=
  Scalar.isFinite v.x && Scalar.isFinite v.y && Scalar.isFinite v.z

end Vec3

end Elastodynamics
