import Elastodynamics.Element.Properties
import Elastodynamics.Model.Config
import Elastodynamics.Record.Datum
/-!
The stored form of material parameters, element properties and model settings.
-/
namespace Elastodynamics

open Datum

variable {α : Type}

def Lame.ofDatum? (d : Datum α) : Option (Lame α) :=
  (numbers? "mu" "lambda" d).map fun (mu, lambda) => ⟨mu, lambda⟩

def YoungPoisson.ofDatum? (d : Datum α) : Option (YoungPoisson α) :=
  (numbers? "young" "poisson" d).map fun (young, poisson) => ⟨young, poisson⟩

def RayleighDamping.ofDatum? (d : Datum α) : Option (RayleighDamping α) :=
  (numbers? "mass_coefficient" "stiffness_coefficient" d).map fun (mass, stiffness) =>
    ⟨mass, stiffness⟩

/-- The name under which a way of lumping is stored. -/
def MassLumping.name : MassLumping → String
  | consistent => "Consistent"
  | rowSum => "RowSum"

def MassLumping.ofName? (name : String) : Option MassLumping :=
  [consistent, rowSum].find? fun l => l.name == name

/-- Reads a way of lumping: its name, or an object whose only field has that name and is null. -/
def MassLumping.ofDatum? : Datum α → Option MassLumping
  | text name => ofName? name
  | object [(name, null)] => ofName? name
  | _ => none

def MassLumping.toDatum (l : MassLumping) : Datum α := text l.name

/-- Reads the stored form of a material law, which is null since the kind of law is not stored. -/
def Law.ofDatum? (law : Law) : Datum α → Option Law
  | null => some law
  | _ => none

def Law.toDatum (_law : Law) : Datum α := null

def Vec3.ofDatum? : Datum α → Option (Vec3 α)
  | list [x, y, z] => do return ⟨← x.number?, ← y.number?, ← z.number?⟩
  | _ => none

variable [Scalar α]

def Lame.toDatum (p : Lame α) : Datum α :=
  object [("mu", ofScalar p.mu), ("lambda", ofScalar p.lambda)]

/-- The stored form of Young's modulus and Poisson's ratio. -/
def YoungPoisson.toDatum (p : YoungPoisson α) : Datum α :=
  object [("young", ofScalar p.young), ("poisson", ofScalar p.poisson)]

def RayleighDamping.toDatum (d : RayleighDamping α) : Datum α :=
  object [("mass_coefficient", ofScalar d.massCoefficient),
    ("stiffness_coefficient", ofScalar d.stiffnessCoefficient)]

def Vec3.toDatum (v : Vec3 α) : Datum α := list (v.toList.map ofScalar)

namespace Config

/-- Reads a setting that keeps its default value where it is absent. -/
def setting? {β : Type} (read : Datum α → Option β) (default : β) : Option (Datum α) → Option β
  | none => some default
  | some d => read d

/-- Reads the settings from the data of each of them, where it is present. -/
def ofSettings? (gravity checkNumerics parallelElementData : Option (Datum α)) :
    Option (Config α) := do
  let d : Config α := default
  return {
    gravity := ← setting? Vec3.ofDatum? d.gravity gravity
    checkNumerics := ← setting? bool? d.checkNumerics checkNumerics
    parallelElementData := ← setting? bool? d.parallelElementData parallelElementData }

/-- Reads the settings of a model. Settings that are absent keep their default values, and a list
may end before the last one. -/
def ofDatum? : Datum α → Option (Config α)
  | object fields =>
    ofSettings? (field? fields "gravity") (field? fields "check_numerics")
      (field? fields "parallel_element_data")
  | list [] => ofSettings? none none none
  | list [x] => ofSettings? (some x) none none
  | list [x, y] => ofSettings? (some x) (some y) none
  | list [x, y, z] => ofSettings? (some x) (some y) (some z)
  | _ => none

def toDatum (c : Config α) : Datum α :=
  object [("gravity", c.gravity.toDatum), ("check_numerics", bool c.checkNumerics),
    ("parallel_element_data", bool c.parallelElementData)]

end Config

end Elastodynamics
