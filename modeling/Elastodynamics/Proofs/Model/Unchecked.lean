import Elastodynamics.Proofs.Model.Writes
/-!
Models that take no value for a failure, because they do not look for values that are not finite or
because every value is finite. The evaluation of such a model always succeeds after the checks of
the state and of the output.
-/
namespace Elastodynamics

open Sparse

variable {α : Type} [Scalar α]

/-- That no value is rejected: there is no check for values that are not finite, or every value
passes it. -/
def Config.RejectsNone (config : Config α) : Prop :=
  config.checkNumerics = true → ∀ y : α, Scalar.isFinite y = true

theorem Config.rejectsNone_of_unchecked {config : Config α} (h : config.checkNumerics = false) :
    config.RejectsNone := by
  intro hCheck
  rw [h] at hCheck
  cases hCheck

/-- A check that every value would pass is passed. -/
theorem Config.RejectsNone.check_eq_false {config : Config α} (h : config.RejectsNone) {b : Bool}
    (hb : (∀ y : α, Scalar.isFinite y = true) → b = true) :
    (config.checkNumerics && !b) = false := by
  cases hCheck : config.checkNumerics with
  | false => rfl
  | true => simp [hb (h hCheck)]

variable [ElementFamily α]

namespace TypedModel

variable {κ : Kind α} {config : Config α}

theorem addResiduals_of_rejectsNone (h : config.RejectsNone) (x : Motion α) (i : Nat)
    (l : List ((kind κ).Element × (kind κ).Data)) (r : Array α) :
    ∃ r', addResiduals config x i l r = (r', .ok ()) := by
  induction l generalizing i r with
  | nil => exact ⟨r, rfl⟩
  | cons p l ih =>
      obtain ⟨e, data⟩ := p
      rw [addResiduals, h.check_eq_false fun hFinite => by simp [Vec3.isFinite, hFinite]]
      exact ih (i + 1) _

theorem localTangents_of_rejectsNone (h : config.RejectsNone) (w : Weights α) (i : Nat)
    (l : List ((kind κ).Element × (kind κ).Data)) :
    ∃ tangents, localTangents config w i l = .ok tangents := by
  induction l generalizing i with
  | nil => exact ⟨[], rfl⟩
  | cons p l ih =>
      obtain ⟨e, data⟩ := p
      obtain ⟨rest, hRest⟩ := ih (i + 1)
      rw [localTangents, h.check_eq_false fun hFinite => by simp [isFinite, Mat3.isFinite, hFinite],
        hRest]
      exact ⟨_, rfl⟩

theorem addEnergies_of_rejectsNone (h : config.RejectsNone) (i : Nat)
    (l : List ((kind κ).Element × (kind κ).Data)) (y : α) :
    ∃ z, addEnergies config i l y = .ok z := by
  induction l generalizing i y with
  | nil => exact ⟨y, rfl⟩
  | cons p l ih =>
      obtain ⟨e, data⟩ := p
      rw [addEnergies, h.check_eq_false fun hFinite => hFinite _]
      exact ih (i + 1) _

end TypedModel

namespace Model

/-- A model of which no part takes a value for a failure. -/
inductive Unchecked : Model α → Prop where
  | typed {κ : Kind α} {m : TypedModel α κ} (h : m.config.RejectsNone) : Unchecked (.typed m)
  | composite {id : SystemId} {P : Pattern} {bodies : List (Model α)}
      (hBodies : ∀ b ∈ bodies, b.Unchecked) : Unchecked (.composite id P bodies)

variable {m : Model α} {bodies : List (Model α)} {w : Weights α}

/-! ### Residuals -/

theorem bodyResidualsOf_of_forall
    (hBodies : ∀ b ∈ bodies, ∀ x r, ∃ r', b.residualOf x r = (r', .ok ())) (first : Nat)
    (x : Motion α) (r : Array α) : ∃ r', bodyResidualsOf first bodies x r = (r', .ok ()) := by
  induction bodies generalizing first x r with
  | nil => exact ⟨r, by rw [bodyResidualsOf]⟩
  | cons b bodies ih =>
      obtain ⟨head, hHead⟩ :=
        hBodies b List.mem_cons_self (x.take b.numDofs) (r.extract 0 b.numDofs)
      obtain ⟨tail, hTail⟩ := ih (fun b hb => hBodies b (List.mem_cons_of_mem _ hb))
        (first + b.numElements) (x.drop b.numDofs) (r.extract b.numDofs)
      refine ⟨head ++ tail, ?_⟩
      rw [bodyResidualsOf, hHead]
      simp only
      rw [hTail]

/-- The residual of an unchecked model is always complete. -/
theorem Unchecked.residualOf (h : m.Unchecked) (x : Motion α) (r : Array α) :
    ∃ r', m.residualOf x r = (r', .ok ()) := by
  induction m generalizing x r with
  | typed m =>
      cases h with
      | typed h =>
          rw [Model.residualOf]
          exact TypedModel.addResiduals_of_rejectsNone h _ _ _ _
  | composite id P bodies ih =>
      cases h with
      | composite hBodies =>
          rw [Model.residualOf]
          exact bodyResidualsOf_of_forall (fun b hb => ih b hb (hBodies b hb)) 0 x r

/-! ### Tangent matrices -/

theorem bodyTangentsOf_of_forall
    (hBodies : ∀ b ∈ bodies, ∀ x, ∃ B, b.tangentOf x w b.makeTangent = (B, .ok ())) (first : Nat)
    (x : Motion α) : ∃ matrices, bodyTangentsOf first bodies x w = .ok matrices := by
  induction bodies generalizing first x with
  | nil => exact ⟨[], by rw [bodyTangentsOf]⟩
  | cons b bodies ih =>
      obtain ⟨B, hB⟩ := hBodies b List.mem_cons_self (x.take b.numDofs)
      obtain ⟨matrices, hRest⟩ := ih (fun b hb => hBodies b (List.mem_cons_of_mem _ hb))
        (first + b.numElements) (x.drop b.numDofs)
      refine ⟨(b.numNodes, B) :: matrices, ?_⟩
      rw [bodyTangentsOf, hB]
      simp only [hRest]
      rfl

/-- The tangent matrix of an unchecked model can always be added to a matrix with its blocks. -/
theorem Unchecked.tangentOf (h : m.Unchecked) (hm : m.WellFormed) (x : Motion α) (w : Weights α)
    {A : BlockMatrix α} (hA : ∀ c ∈ m.pattern.entries, c ∈ A.pattern.entries) :
    ∃ A', m.tangentOf x w A = (A', .ok ()) := by
  induction m generalizing x A with
  | typed m =>
      cases h with
      | typed h =>
          cases hm with
          | typed hm =>
              obtain ⟨tangents, hLocal⟩ :=
                TypedModel.localTangents_of_rejectsNone h w 0 (m.elementsAt x)
              obtain ⟨A', hAdd, _⟩ := TypedModel.addTangents_of_wellFormed hm hA hLocal
              rw [Model.tangentOf, hLocal]
              split
              · exact ⟨A, rfl⟩
              · exact ⟨A', hAdd⟩
  | composite id P bodies ih =>
      have hEntries : ∀ c ∈ blockEntries 0 bodies, c ∈ A.pattern.entries := fun c hc =>
        hA c (hm.mem_pattern_composite.mpr hc)
      cases h with
      | composite hUnchecked =>
          cases hm with
          | composite hBodies hPattern =>
              obtain ⟨matrices, hOk⟩ := bodyTangentsOf_of_forall (w := w) (fun b hb x =>
                ih b hb (hUnchecked b hb) (hBodies b hb) x (A := b.makeTangent) fun _ hc => hc) 0 x
              rw [Model.tangentOf, hOk]
              rcases bodyTangentsOf_outcome (fun b hb => tangentOf_outcome (hBodies b hb)) 0 x w
                with ⟨_, hSame, hMatch⟩ | ⟨k, hError⟩
              · rw [hOk] at hSame
                cases hSame
                obtain ⟨A', hAdd, _⟩ := addBodies_of_entries hMatch hEntries
                exact ⟨A', hAdd⟩
              · rw [hOk] at hError
                cases hError

theorem Unchecked.exists_tangent (h : m.Unchecked) (hm : m.WellFormed) (x : Motion α)
    (w : Weights α) : ∃ A, m.tangentOf x w m.makeTangent = (A, .ok ()) :=
  h.tangentOf hm x w fun _ hc => hc

/-! ### Energies -/

theorem bodyEnergiesOf_of_forall (hBodies : ∀ b ∈ bodies, ∀ x, ∃ y, b.energyOf x = .ok y)
    (first : Nat) (x : Motion α) (y : α) : ∃ z, bodyEnergiesOf first bodies x y = .ok z := by
  induction bodies generalizing first x y with
  | nil => exact ⟨y, by rw [bodyEnergiesOf]⟩
  | cons b bodies ih =>
      obtain ⟨z, hEnergy⟩ := hBodies b List.mem_cons_self (x.take b.numDofs)
      rw [bodyEnergiesOf, hEnergy]
      exact ih (fun b hb => hBodies b (List.mem_cons_of_mem _ hb)) _ _ _

/-- An unchecked model always has an energy. -/
theorem Unchecked.energyOf (h : m.Unchecked) (x : Motion α) : ∃ y, m.energyOf x = .ok y := by
  induction m generalizing x with
  | typed m =>
      cases h with
      | typed h =>
          rw [Model.energyOf]
          exact TypedModel.addEnergies_of_rejectsNone h _ _ _
  | composite id P bodies ih =>
      cases h with
      | composite hBodies =>
          rw [Model.energyOf]
          exact bodyEnergiesOf_of_forall (fun b hb => ih b hb (hBodies b hb)) 0 x 0

end Model

end Elastodynamics
