import Elastodynamics.Proofs.Model.Writes
/-!
Evaluation of bodies one after the other. If every body gives a result for its piece of the motion,
the residuals of all bodies fill a vector from the beginning to the end, their energies add up, and
over exact scalars their tangent matrices end up on the diagonal, moved by the numbers of nodes
before them, where nothing else is changed.
-/
namespace Elastodynamics

open Sparse

variable {α : Type} [ElementFamily α]

namespace Model

/-! ### Results of bodies -/

/-- That the results are those of bodies for their pieces of a motion. -/
inductive Pieces {β : Type} (R : Model α → Motion α → β → Prop) :
    List (Model α) → Motion α → List β → Prop where
  | nil (x : Motion α) : Pieces R [] x []
  | cons {b : Model α} {bodies : List (Model α)} {x : Motion α} {y : β} {results : List β}
      (hBody : R b (x.take b.numDofs) y) (hRest : Pieces R bodies (x.drop b.numDofs) results) :
      Pieces R (b :: bodies) x (y :: results)

variable {β : Type} {R : Model α → Motion α → β → Prop} {bodies : List (Model α)}

/-- Results that belong to the bodies at their places belong to the pieces of the motion. -/
theorem pieces_of_getElem? (first : Nat) {x : Motion α} {results : List β}
    (hLength : results.length = bodies.length)
    (hBodies : ∀ (k : Nat) b y offset, bodies[k]? = some b → results[k]? = some y →
      (nodeOffsets first bodies)[k]? = some offset →
      R b ((x.drop (3 * offset)).take b.numDofs) y) :
    Pieces R bodies (x.drop (3 * first)) results := by
  induction bodies generalizing first results with
  | nil =>
      rw [List.length_nil, List.length_eq_zero_iff] at hLength
      rw [hLength]
      exact .nil _
  | cons b bodies ih =>
      cases results with
      | nil => cases hLength
      | cons y results =>
          rw [nodeOffsets] at hBodies
          refine .cons (hBodies 0 b y first rfl rfl rfl) ?_
          rw [Motion.drop_drop, numDofs, ← Nat.mul_add]
          exact ih (first + b.numNodes) (Nat.succ.inj hLength) fun k => hBodies (k + 1)

variable [Scalar α]

/-! ### Residuals -/

/-- The residuals of several bodies are complete if that of the first one is, and those of the
others. -/
theorem bodyResidualsOf_cons_eq_ok {b : Model α} {first : Nat} {x : Motion α}
    {r z : Array α}
    (h : bodyResidualsOf first (b :: bodies) x r = (z, .ok ())) : ∃ head tail,
      b.residualOf (x.take b.numDofs) (r.extract 0 b.numDofs) = (head, .ok ()) ∧
      bodyResidualsOf (first + b.numElements) bodies (x.drop b.numDofs) (r.extract b.numDofs) =
        (tail, .ok ()) ∧
      z = head ++ tail := by
  rw [bodyResidualsOf] at h
  cases hHead : b.residualOf (x.take b.numDofs) (r.extract 0 b.numDofs) with
  | mk head status =>
      rw [hHead] at h
      cases status with
      | error e => cases h
      | ok u =>
          cases hTail : bodyResidualsOf (first + b.numElements) bodies (x.drop b.numDofs)
              (r.extract b.numDofs) with
          | mk tail status =>
              simp only [hTail] at h
              cases h
              exact ⟨head, tail, rfl, rfl, rfl⟩

/-- That a complete residual of a model does not depend on what the vector held before. -/
def Overwrites (m : Model α) : Prop :=
  ∀ x r r' y, r.size = m.numDofs → r'.size = m.numDofs → m.residualOf x r = (y, .ok ()) →
    m.residualOf x r' = (y, .ok ())

theorem bodyResidualsOf_congr (hBodies : ∀ b ∈ bodies, b.Overwrites) {first : Nat} {x : Motion α}
    {r r' y : Array α} (hr : r.size = 3 * totalNodes bodies)
    (hr' : r'.size = 3 * totalNodes bodies) (h : bodyResidualsOf first bodies x r = (y, .ok ())) :
    bodyResidualsOf first bodies x r' = (y, .ok ()) := by
  induction bodies generalizing first x r r' y with
  | nil =>
      rw [totalNodes] at hr hr'
      have hSame : r = r' := by
        rw [Array.eq_empty_of_size_eq_zero hr, Array.eq_empty_of_size_eq_zero hr']
      rw [← hSame]
      exact h
  | cons b bodies ih =>
      obtain ⟨hHead, hTail⟩ := size_extract_of_cons hr
      obtain ⟨hHead', hTail'⟩ := size_extract_of_cons hr'
      obtain ⟨head, tail, hResult, hRest, rfl⟩ := bodyResidualsOf_cons_eq_ok h
      have hSame := hBodies b List.mem_cons_self _ _ _ _ hHead hHead' hResult
      have hRest' := ih (fun b hb => hBodies b (List.mem_cons_of_mem _ hb)) hTail hTail' hRest
      rw [bodyResidualsOf, hSame]
      simp only [hRest']

/-- A residual that is complete does not depend on what the vector held before. -/
theorem residualOf_congr (m : Model α) : m.Overwrites := by
  induction m with
  | typed m =>
      intro x r r' y hr hr' h
      rw [residualOf, hr] at h
      rw [residualOf, hr']
      exact h
  | composite id P bodies ih =>
      intro x r r' y hr hr' h
      rw [residualOf] at h ⊢
      exact bodyResidualsOf_congr ih hr hr' h

/-- Residuals of bodies that are all complete are concatenated, whatever the vector held before. -/
theorem bodyResidualsOf_of_pieces {x : Motion α} {results : List (Array α)}
    (h : Pieces (fun b x y => ∀ r, r.size = b.numDofs → b.residualOf x r = (y, .ok ())) bodies x
      results) {first : Nat} {r : Array α} (hr : r.size = 3 * totalNodes bodies) :
    bodyResidualsOf first bodies x r = (results.foldr (· ++ ·) #[], .ok ()) := by
  induction h generalizing first r with
  | nil x =>
      rw [totalNodes] at hr
      rw [bodyResidualsOf, Array.eq_empty_of_size_eq_zero hr]
      rfl
  | @cons b bodies x y results hBody hRest ih =>
      obtain ⟨hHead, hTail⟩ := size_extract_of_cons hr
      rw [bodyResidualsOf, hBody _ hHead]
      simp only [ih hTail]
      rfl

/-! ### Tangent matrices -/

/-- The tangent matrices of several bodies are that of the first one and those of the others. -/
theorem bodyTangentsOf_cons_eq_ok {b : Model α} {first : Nat}
    {x : Motion α} {w : Weights α} {matrices : List (Nat × BlockMatrix α)}
    (h : bodyTangentsOf first (b :: bodies) x w = .ok matrices) : ∃ B rest,
      b.tangentOf (x.take b.numDofs) w b.makeTangent = (B, .ok ()) ∧
      bodyTangentsOf (first + b.numElements) bodies (x.drop b.numDofs) w = .ok rest ∧
      matrices = (b.numNodes, B) :: rest := by
  rw [bodyTangentsOf] at h
  cases hHead : b.tangentOf (x.take b.numDofs) w b.makeTangent with
  | mk B status =>
      rw [hHead] at h
      cases status with
      | error e => cases h
      | ok u =>
          obtain ⟨rest, hRest, rfl⟩ := map_eq_ok_iff.mp h
          exact ⟨B, rest, rfl, hRest, rfl⟩

theorem tangentOf_composite_eq_ok {id : SystemId} {P : Pattern} {bodies : List (Model α)}
    {x : Motion α} {w : Weights α} {A A' : BlockMatrix α}
    (h : (composite id P bodies).tangentOf x w A = (A', .ok ())) :
    ∃ matrices, bodyTangentsOf 0 bodies x w = .ok matrices ∧
      addBodies 0 matrices A = (A', .ok ()) := by
  rw [tangentOf] at h
  cases hMatrices : bodyTangentsOf 0 bodies x w with
  | error e =>
      rw [hMatrices] at h
      cases h
  | ok matrices =>
      rw [hMatrices] at h
      exact ⟨matrices, rfl, h⟩

/-- Tangent matrices of bodies that have all been computed are kept with the numbers of nodes. -/
theorem bodyTangentsOf_of_pieces {w : Weights α} {x : Motion α} {results : List (BlockMatrix α)}
    (h : Pieces (fun b x B => b.tangentOf x w b.makeTangent = (B, .ok ())) bodies x results)
    (first : Nat) : bodyTangentsOf first bodies x w =
      .ok ((bodies.zip results).map fun p => (p.1.numNodes, p.2)) := by
  induction h generalizing first with
  | nil x => rw [bodyTangentsOf]; rfl
  | @cons b bodies x B results hBody hRest ih =>
      rw [bodyTangentsOf, hBody]
      simp only [ih]
      rfl

/-! ### Energies -/

/-- Energies of bodies that all have one are added one after the other. -/
theorem bodyEnergiesOf_of_pieces {x : Motion α} {results : List α}
    (h : Pieces (fun b x y => b.energyOf x = .ok y) bodies x results) (first : Nat) (y : α) :
    bodyEnergiesOf first bodies x y = .ok (results.foldl (· + ·) y) := by
  induction h generalizing first y with
  | nil x => rw [bodyEnergiesOf]; rfl
  | @cons b bodies x z results hBody hRest ih =>
      rw [bodyEnergiesOf, hBody]
      exact ih _ _

end Model

end Elastodynamics
