import Elastodynamics.Proofs.Model.Writes
/-!
Reports of numeric failures. A model that is evaluated for a motion visits its elements one after
the other, those of bodies in the order of the bodies, and the first element that reports a value
that is not finite decides the outcome: its place in the list of all elements is the index of the
failure.
-/
namespace Elastodynamics

open Sparse

variable {α : Type}

/-! ### Tests for finite values -/

theorem vector_all_iff {β : Type} {n : Nat} {p : β → Bool} {v : Vector β n} :
    v.all p = true ↔ ∀ a, p (v.get a) = true := by
  rw [Vector.all_eq_true, Fin.forall_iff]
  rfl

section

variable [Scalar α]

theorem Vec3.isFinite_iff {v : Vec3 α} :
    v.isFinite = true ↔ ∀ i, Scalar.isFinite (v.get i) = true := by
  simp [Vec3.isFinite, Fin.forall_fin_succ, Vec3.get, and_assoc]

theorem Mat3.isFinite_iff {A : Mat3 α} :
    A.isFinite = true ↔ ∀ i j, Scalar.isFinite (A.get i j) = true := by
  simp only [Mat3.isFinite, Mat3.toColumns, List.all_cons, List.all_nil, Bool.and_eq_true,
    Fin.forall_fin_succ, Mat3.get, Mat3.row, Vec3.get]
  grind

theorem TypedModel.isFinite_iff {n : Nat} {A : Dense (Mat3 α) n n} :
    isFinite A = true ↔ ∀ a b i j, Scalar.isFinite ((A.get a b).get i j) = true := by
  simp only [isFinite, vector_all_iff, Mat3.isFinite_iff]
  rfl

end

/-! ### Elements in their places -/

/-- What is computed element by element and checked for values that are not finite. -/
inductive Quantity (α : Type) where
  | residual
  | tangent (w : Weights α)
  | energy

def Quantity.name : Quantity α → String
  | .residual => "residual"
  | .tangent _ => "tangent matrix"
  | .energy => "elastic energy"

/-- An element together with the settings and the motion of the model of elements that it belongs
to. -/
structure Site (α : Type) [ElementFamily α] where
  κ : Kind α
  element : (kind κ).Element
  config : Config α
  motion : Motion α

variable [Scalar α] [ElementFamily α]

namespace Site

/-- The data of the element in the motion. -/
def data (s : Site α) : (kind s.κ).Data := (kind s.κ).dataAt s.element s.motion

/-- What the element contributes to the residual. -/
def residual (s : Site α) : Vector (Vec3 α) (kind s.κ).nodeCount :=
  (kind s.κ).residual s.element s.data (s.motion.restrict ((kind s.κ).nodes s.element))
    s.config.gravity

/-- What the element contributes to the tangent matrix. -/
def tangent (s : Site α) (w : Weights α) :
    Dense (Mat3 α) (kind s.κ).nodeCount (kind s.κ).nodeCount :=
  (kind s.κ).addTangent s.element s.data w (.repeated 0)

/-- What the element contributes to the energy. -/
def energy (s : Site α) : α := (kind s.κ).energy s.element s.data

/-- The test of what the element contributes to a quantity. -/
def isFinite (s : Site α) : Quantity α → Bool
  | .residual => s.residual.all Vec3.isFinite
  | .tangent w => TypedModel.isFinite (s.tangent w)
  | .energy => Scalar.isFinite s.energy

/-- Whether the model of the element checks values, and what the element contributes fails the
test. -/
def reports (q : Quantity α) (s : Site α) : Bool := s.config.checkNumerics && !s.isFinite q

/-- Whether an element reports a failure of a tangent matrix. If all weights are zero, none is
computed. -/
def reportsTangent (w : Weights α) (s : Site α) : Bool := !w.isZero && s.reports (.tangent w)

/-- Whether what the element contributes to a quantity has an entry that is not finite. -/
def NotFinite (s : Site α) : Quantity α → Prop
  | .residual => ∃ a i, Scalar.isFinite ((s.residual.get a).get i) = false
  | .tangent w => ∃ a b i j, Scalar.isFinite (((s.tangent w).get a b).get i j) = false
  | .energy => Scalar.isFinite s.energy = false

/-- Whether an element reports a failure: its model checks values, and what the element contributes
has an entry that is not finite. -/
def Reports (q : Quantity α) (s : Site α) : Prop :=
  s.config.checkNumerics = true ∧ s.NotFinite q

theorem isFinite_eq_false_iff {s : Site α} {q : Quantity α} :
    s.isFinite q = false ↔ s.NotFinite q := by
  cases q with
  | residual =>
      simp only [isFinite, NotFinite, ← Bool.not_eq_true, vector_all_iff, Vec3.isFinite_iff,
        not_forall]
  | tangent w =>
      simp only [isFinite, NotFinite, ← Bool.not_eq_true, TypedModel.isFinite_iff, not_forall]
  | energy => exact Iff.rfl

theorem reports_iff {s : Site α} {q : Quantity α} : s.reports q = true ↔ s.Reports q := by
  rw [reports, Reports, Bool.and_eq_true, Bool.not_eq_true', isFinite_eq_false_iff]

end Site

namespace Model

mutual

/-- All elements of a model in their places, those of bodies one body after the other. -/
def sites : Model α → Motion α → List (Site α)
  | typed m, x => m.elements.toList.map fun e => ⟨_, e, m.config, x⟩
  | composite _ _ bodies, x => sitesOf bodies x

/-- The elements of bodies that are given their pieces of a motion. -/
def sitesOf : List (Model α) → Motion α → List (Site α)
  | [], _ => []
  | b :: bodies, x => b.sites (x.take b.numDofs) ++ sitesOf bodies (x.drop b.numDofs)

end

omit [Scalar α] in
theorem mem_sites_typed {κ : Kind α} {m : TypedModel α κ} {e : (kind κ).Element}
    (he : e ∈ m.elements) (x : Motion α) : ⟨κ, e, m.config, x⟩ ∈ (typed m).sites x := by
  rw [sites]
  exact List.mem_map_of_mem (Array.mem_toList_iff.mpr he)

omit [Scalar α] in
theorem mem_sitesOf_cons {b : Model α} {bodies : List (Model α)} {x : Motion α} {s : Site α} :
    s ∈ sitesOf (b :: bodies) x ↔
      s ∈ b.sites (x.take b.numDofs) ∨ s ∈ sitesOf bodies (x.drop b.numDofs) := by
  rw [sitesOf, List.mem_append]

omit [Scalar α] in
theorem length_sites (m : Model α) (x : Motion α) : (m.sites x).length = m.numElements := by
  induction m generalizing x with
  | typed m => simp [sites, numElements]
  | composite id P bodies ih =>
      rw [sites, numElements]
      induction bodies generalizing x with
      | nil => simp [sitesOf, totalElements]
      | cons b bodies ihBodies =>
          rw [sitesOf, totalElements, List.length_append, ih b List.mem_cons_self,
            ihBodies fun b hb => ih b (List.mem_cons_of_mem _ hb)]

/-! ### The first report -/

/-- The status of an evaluation of elements that are counted from `first`, given the place of the
first one with a report. -/
def verdict (quantity : String) (first : Nat) : Option Nat → Except ModelError Unit
  | none => .ok ()
  | some k => .error (.numericFailure (first + k) quantity)

variable {quantity : String} {first : Nat} {β : Type} {p : β → Bool}

omit [Scalar α] in
theorem verdict_cons (y : β) (l : List β) :
    verdict quantity first ((y :: l).findIdx? p) =
      if p y then .error (.numericFailure first quantity)
      else verdict quantity (first + 1) (l.findIdx? p) := by
  rw [List.findIdx?_cons]
  split
  · rfl
  · cases l.findIdx? p with
    | none => rfl
    | some k => rw [Option.map_some, verdict, verdict, Nat.add_assoc, Nat.add_comm 1]

/-- The elements of a further body are only reached without a report of the first one. -/
theorem verdict_append (l l' : List β) :
    verdict quantity first ((l ++ l').findIdx? p) =
      match verdict quantity 0 (l.findIdx? p) with
      | .error e => .error (e.shiftElement first)
      | .ok () => verdict quantity (first + l.length) (l'.findIdx? p) := by
  rw [List.findIdx?_append]
  cases l.findIdx? p with
  | some k => simp [verdict, ModelError.shiftElement]
  | none =>
      cases l'.findIdx? p with
      | none => rfl
      | some k =>
          rw [Option.map_some, Option.none_or, verdict, verdict, Nat.add_comm k, ← Nat.add_assoc]
          rfl

end Model

namespace TypedModel

variable {κ : Kind α}

/-- The loop over elements stops at the first one whose residual is not finite. -/
theorem status_addResiduals (config : Config α) (x : Motion α) (i : Nat)
    (l : List (kind κ).Element) (r : Array α) :
    (addResiduals config x i (l.map fun e => (e, (kind κ).dataAt e x)) r).2 =
      Model.verdict "residual" i ((l.map fun e => Site.mk κ e config x).findIdx?
        (·.reports .residual)) := by
  induction l generalizing i r with
  | nil => rfl
  | cons e l ih =>
      rw [List.map_cons, List.map_cons, addResiduals, Model.verdict_cons]
      split
      · next h => exact (if_pos h).symm
      · next h => exact (ih _ _).trans (if_neg h).symm

theorem status_localTangents (config : Config α) (w : Weights α) (x : Motion α) (i : Nat)
    (l : List (kind κ).Element) :
    (localTangents config w i (l.map fun e => (e, (kind κ).dataAt e x))).map (fun _ => ()) =
      Model.verdict "tangent matrix" i ((l.map fun e => Site.mk κ e config x).findIdx?
        (·.reports (.tangent w))) := by
  induction l generalizing i with
  | nil => rfl
  | cons e l ih =>
      rw [List.map_cons, List.map_cons, localTangents, Model.verdict_cons]
      split
      · next h => exact (if_pos h).symm
      · next h =>
          refine Eq.trans ?_ ((ih _).trans (if_neg h).symm)
          cases localTangents config w (i + 1) _ <;> rfl

theorem status_addEnergies (config : Config α) (x : Motion α) (i : Nat)
    (l : List (kind κ).Element) (y : α) :
    (addEnergies config i (l.map fun e => (e, (kind κ).dataAt e x)) y).map (fun _ => ()) =
      Model.verdict "elastic energy" i ((l.map fun e => Site.mk κ e config x).findIdx?
        (·.reports .energy)) := by
  induction l generalizing i y with
  | nil => rfl
  | cons e l ih =>
      rw [List.map_cons, List.map_cons, addEnergies, Model.verdict_cons]
      split
      · next h => exact (if_pos h).symm
      · next h => exact (ih _ _).trans (if_neg h).symm

end TypedModel

namespace Model

/-! ### Models of any kind -/

/-- The residual is complete unless an element reports, and the first one that does is named. -/
theorem status_residualOf (m : Model α) (x : Motion α) (r : Array α) :
    (m.residualOf x r).2 =
      verdict "residual" 0 ((m.sites x).findIdx? (·.reports .residual)) := by
  induction m generalizing x r with
  | typed m => exact TypedModel.status_addResiduals m.config x 0 m.elements.toList _
  | composite id P bodies ih =>
      rw [residualOf, sites]
      generalize 0 = first
      induction bodies generalizing x r first with
      | nil =>
          rw [bodyResidualsOf, sitesOf]
          rfl
      | cons b bodies ihBodies =>
          have hBody := ih b List.mem_cons_self (x.take b.numDofs) (r.extract 0 b.numDofs)
          have hRest := ihBodies (fun b hb => ih b (List.mem_cons_of_mem _ hb))
            (x.drop b.numDofs) (r.extract b.numDofs) (first + b.numElements)
          rw [bodyResidualsOf, sitesOf, verdict_append, ← hBody, length_sites]
          cases b.residualOf (x.take b.numDofs) (r.extract 0 b.numDofs) with
          | mk head status =>
              cases status with
              | error e => rfl
              | ok u => exact hRest

/-- The matrices of bodies are complete unless an element reports. -/
theorem status_bodyTangentsOf {bodies : List (Model α)} {w : Weights α}
    (hBodies : ∀ b ∈ bodies, ∀ x, (b.tangentOf x w b.makeTangent).2 =
      verdict "tangent matrix" 0 ((b.sites x).findIdx? (Site.reportsTangent w)))
    (first : Nat) (x : Motion α) :
    (bodyTangentsOf first bodies x w).map (fun _ => ()) =
      verdict "tangent matrix" first ((sitesOf bodies x).findIdx? (Site.reportsTangent w)) := by
  induction bodies generalizing x first with
  | nil =>
      rw [bodyTangentsOf, sitesOf]
      rfl
  | cons b bodies ih =>
      have hBody := hBodies b List.mem_cons_self (x.take b.numDofs)
      have hRest := ih (fun b hb => hBodies b (List.mem_cons_of_mem _ hb)) (first + b.numElements)
        (x.drop b.numDofs)
      rw [bodyTangentsOf, sitesOf, verdict_append, ← hBody, length_sites, ← hRest]
      cases b.tangentOf (x.take b.numDofs) w b.makeTangent with
      | mk B status =>
          cases status with
          | error e => rfl
          | ok u =>
              show Except.map _ (Except.map _ _) = Except.map _ _
              cases bodyTangentsOf (first + b.numElements) bodies (x.drop b.numDofs) w <;> rfl

/-- The tangent matrix is added unless an element reports, and the first one that does is named. -/
theorem status_tangentOf {m : Model α} (hm : m.WellFormed) (x : Motion α) (w : Weights α)
    {A : BlockMatrix α} (hA : ∀ c ∈ m.pattern.entries, c ∈ A.pattern.entries) :
    (m.tangentOf x w A).2 =
      verdict "tangent matrix" 0 ((m.sites x).findIdx? (Site.reportsTangent w)) := by
  induction m generalizing x A with
  | typed m =>
      rw [tangentOf, sites]
      cases hw : w.isZero with
      | true =>
          have hNone : Site.reportsTangent w = fun _ => false := by
            funext s
            rw [Site.reportsTangent, hw, Bool.not_true, Bool.false_and]
          rw [hNone, List.findIdx?_eq_none_iff.mpr fun _ _ => rfl]
          rfl
      | false =>
          have hSame : Site.reportsTangent w = (·.reports (.tangent w)) := by
            funext s
            rw [Site.reportsTangent, hw, Bool.not_false, Bool.true_and]
          have hStatus : (TypedModel.localTangents m.config w 0 (m.elementsAt x)).map
              (fun _ => ()) = _ :=
            TypedModel.status_localTangents m.config w x 0 m.elements.toList
          rw [hSame, ← hStatus, if_neg Bool.false_ne_true]
          cases hLocal : TypedModel.localTangents m.config w 0 (m.elementsAt x) with
          | error e => rfl
          | ok tangents =>
              obtain ⟨A', hAdd, _⟩ :=
                TypedModel.addTangents_of_wellFormed hm.of_typed hA hLocal
              exact congrArg Prod.snd hAdd
  | composite id P bodies ih =>
      have hStatus := status_bodyTangentsOf (w := w)
        (fun b hb x => ih b hb (hm.body hb) x fun _ hc => hc) 0 x
      have hEntries : ∀ c ∈ blockEntries 0 bodies, c ∈ A.pattern.entries := fun c hc =>
        hA c (hm.mem_pattern_composite.mpr hc)
      rw [tangentOf, sites, ← hStatus]
      rcases bodyTangentsOf_outcome (fun b hb => tangentOf_outcome (hm.body hb)) 0 x w with
        ⟨matrices, hOk, hMatch⟩ | ⟨k, hError⟩
      · obtain ⟨A', hAdd, _⟩ := addBodies_of_entries hMatch hEntries
        rw [hOk]
        exact congrArg Prod.snd hAdd
      · rw [hError]
        rfl

/-- The energies add up unless an element reports, and the first one that does is named. -/
theorem status_energyOf (m : Model α) (x : Motion α) :
    (m.energyOf x).map (fun _ => ()) =
      verdict "elastic energy" 0 ((m.sites x).findIdx? (·.reports .energy)) := by
  induction m generalizing x with
  | typed m => exact TypedModel.status_addEnergies m.config x 0 m.elements.toList 0
  | composite id P bodies ih =>
      rw [energyOf, sites]
      generalize 0 = first
      generalize (0 : α) = y
      induction bodies generalizing x y first with
      | nil =>
          rw [bodyEnergiesOf, sitesOf]
          rfl
      | cons b bodies ihBodies =>
          have hBody := ih b List.mem_cons_self (x.take b.numDofs)
          have hRest := ihBodies (fun b hb => ih b (List.mem_cons_of_mem _ hb))
            (x.drop b.numDofs) (first + b.numElements)
          rw [bodyEnergiesOf, sitesOf, verdict_append, ← hBody, length_sites]
          cases b.energyOf (x.take b.numDofs) with
          | error e => rfl
          | ok z => exact hRest (y + z)

end Model

end Elastodynamics
