import Elastodynamics.Scalar
/-!
Structured data, the form in which parameters and settings are stored. A record with named fields is
read from an object or from the list of its fields in order; in an object, fields that the record
does not have are passed over.
-/
namespace Elastodynamics

/-- A piece of structured data. -/
inductive Datum (α : Type) where
  | null
  | bool (b : Bool)
  | number (x : α)
  | text (s : String)
  | list (items : List (Datum α))
  | object (fields : List (String × Datum α))

namespace Datum

variable {α : Type}

def number? : Datum α → Option α
  | number x => some x
  | _ => none

def bool? : Datum α → Option Bool
  | bool b => some b
  | _ => none

/-- The field of an object with the given name. -/
def field? (fields : List (String × Datum α)) (name : String) : Option (Datum α) :=
  (fields.find? fun f => f.1 == name).map Prod.snd

/-- The two fields of a record with the given names, both of which must be there. -/
def pair? (first second : String) : Datum α → Option (Datum α × Datum α)
  | object fields => do return (← field? fields first, ← field? fields second)
  | list [x, y] => some (x, y)
  | _ => none

def numbers? (first second : String) (d : Datum α) : Option (α × α) := do
  let (x, y) ← pair? first second d
  return (← x.number?, ← y.number?)

variable [Scalar α]

/-- The datum of a scalar: a scalar that is not finite has no written form and becomes null. -/
def ofScalar (x : α) : Datum α := if Scalar.isFinite x then number x else null

end Datum

end Elastodynamics
