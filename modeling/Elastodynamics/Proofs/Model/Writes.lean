import Elastodynamics.Proofs.Sparse.Addition
import Elastodynamics.Proofs.Model.Session
import Elastodynamics.Proofs.Model.Uncached
/-!
Writes of tangent matrices. What a model adds to a matrix with the blocks of its pattern is always
stored there, so once every element matrix has been computed, no addition is rejected. A tangent
matrix is therefore added as a whole or not at all.
-/
namespace Elastodynamics

open Sparse

variable {α : Type} [Scalar α] [ElementFamily α]

namespace TypedModel

variable {κ : Kind α} {config : Config α} {w : Weights α}

/-! ### Models of elements -/

/-- Element matrices that have all been computed are the tangent matrices of the elements. -/
theorem localTangents_eq_ok {i : Nat} {l : List ((kind κ).Element × (kind κ).Data)}
    {tangents : List ((kind κ).Element × Dense (Mat3 α) (kind κ).nodeCount (kind κ).nodeCount)}
    (h : localTangents config w i l = .ok tangents) :
    tangents = l.map fun p => (p.1, (kind κ).addTangent p.1 p.2 w (.repeated 0)) := by
  induction l generalizing i tangents with
  | nil =>
      cases h
      rfl
  | cons p l ih =>
      obtain ⟨e, data⟩ := p
      rw [localTangents] at h
      split at h
      · cases h
      · obtain ⟨rest, hRest, h⟩ := bind_eq_ok_iff.mp h
        cases h
        rw [List.map_cons, ih hRest]

theorem localTangents_eq_error {i : Nat} {l : List ((kind κ).Element × (kind κ).Data)}
    {err : ModelError} (h : localTangents config w i l = .error err) :
    ∃ k, err = .numericFailure k "tangent matrix" := by
  induction l generalizing i with
  | nil => cases h
  | cons p l ih =>
      obtain ⟨e, data⟩ := p
      rw [localTangents] at h
      split at h
      · cases h
        exact ⟨i, rfl⟩
      · rcases bind_eq_error_iff.mp h with hRest | ⟨rest, _, h⟩
        · exact ih hRest
        · cases h

/-- Element matrices are added without fail if every two nodes of an element have a block. -/
theorem addTangents_of_contains {A : BlockMatrix α}
    {l : List ((kind κ).Element × Dense (Mat3 α) (kind κ).nodeCount (kind κ).nodeCount)}
    (h : ∀ p ∈ l, ∀ i ∈ ((kind κ).nodes p.1).toList, ∀ j ∈ ((kind κ).nodes p.1).toList,
      A.pattern.contains i j = true) :
    ∃ A', addTangents l A = (A', .ok ()) ∧ A'.pattern = A.pattern := by
  induction l generalizing A with
  | nil => exact ⟨A, rfl, rfl⟩
  | cons p l ih =>
      obtain ⟨e, L⟩ := p
      have hDim : 3 * (kind κ).nodeCount = 3 * ((kind κ).nodes e).toList.length := by
        rw [Vector.length_toList]
      obtain ⟨B, hAdd⟩ := BlockMatrix.addToBlocks_of_contains (L := L.flatten) hDim hDim
        (h (e, L) List.mem_cons_self)
      have hPattern := BlockMatrix.pattern_of_addToBlocks hAdd
      obtain ⟨A', hRest, hSame⟩ := ih (A := B) fun p hp => by
        rw [hPattern]
        exact h p (List.mem_cons_of_mem _ hp)
      refine ⟨A', ?_, hSame.trans hPattern⟩
      rw [addTangents, hAdd]
      exact hRest

/-- The element matrices of a model are added without fail to a matrix with the blocks of the
pattern. -/
theorem addTangents_of_wellFormed {m : TypedModel α κ} (hm : m.WellFormed) {A : BlockMatrix α}
    (hA : ∀ c ∈ m.pattern.entries, c ∈ A.pattern.entries) {x : Motion α} {i : Nat}
    {tangents : List ((kind κ).Element × Dense (Mat3 α) (kind κ).nodeCount (kind κ).nodeCount)}
    (h : localTangents config w i (m.elementsAt x) = .ok tangents) :
    ∃ A', addTangents tangents A = (A', .ok ()) ∧ A'.pattern = A.pattern := by
  apply addTangents_of_contains
  intro p hp i hi j hj
  rw [localTangents_eq_ok h, elementsAt, List.map_map] at hp
  obtain ⟨e, he, rfl⟩ := List.mem_map.mp hp
  have hBlock := hm.contains_pattern (by simpa using he) hi hj
  rw [Pattern.contains_iff] at hBlock ⊢
  exact hA _ hBlock

end TypedModel

namespace Model

/-! ### Models of bodies -/

omit [ElementFamily α] in
/-- Stored blocks are added along the diagonal without fail if their places have blocks. -/
theorem addStored_of_contains {first : Nat} {l : List (Coord × Mat3 α)} {A : BlockMatrix α}
    (h : ∀ e ∈ l, A.pattern.contains (first + e.1.1) (first + e.1.2) = true) :
    ∃ A', addBodies.addStored first l A = (A', .ok ()) ∧ A'.pattern = A.pattern := by
  induction l generalizing A with
  | nil => exact ⟨A, rfl, rfl⟩
  | cons e l ih =>
      obtain ⟨⟨i, j⟩, B⟩ := e
      obtain ⟨A₁, hAdd⟩ := BlockMatrix.addToBlock_of_contains B (h _ List.mem_cons_self)
      have hPattern := BlockMatrix.pattern_of_addToBlock hAdd
      obtain ⟨A', hRest, hSame⟩ := ih (A := A₁) fun e he => by
        rw [hPattern]
        exact h e (List.mem_cons_of_mem _ he)
      refine ⟨A', ?_, hSame.trans hPattern⟩
      rw [addBodies.addStored, hAdd]
      exact hRest

/-- That matrices, with numbers of nodes, have the patterns of bodies. -/
def MatchBodies (bodies : List (Model α)) (matrices : List (Nat × BlockMatrix α)) : Prop :=
  List.Forall₂ (fun b e => e.1 = b.numNodes ∧ e.2.pattern = b.pattern) bodies matrices

/-- Matrices of bodies are added along the diagonal without fail if the blocks of the bodies are
there. -/
theorem addBodies_of_entries {first : Nat} {bodies : List (Model α)}
    {matrices : List (Nat × BlockMatrix α)} (hMatch : MatchBodies bodies matrices)
    {A : BlockMatrix α} (hEntries : ∀ c ∈ blockEntries first bodies, c ∈ A.pattern.entries) :
    ∃ A', addBodies first matrices A = (A', .ok ()) ∧ A'.pattern = A.pattern := by
  induction hMatch generalizing first A with
  | nil => exact ⟨A, by rw [addBodies], rfl⟩
  | @cons b e bodies matrices hBody hMatch ih =>
      obtain ⟨n, B⟩ := e
      obtain ⟨rfl, hPattern⟩ := hBody
      have hStored : ∀ e ∈ B.stored, A.pattern.contains (first + e.1.1) (first + e.1.2) = true := by
        intro e he
        have hEntry : e.1 ∈ b.pattern.entries := by
          rw [← hPattern]
          exact BlockMatrix.mem_entries_of_mem_stored he
        have hMem : (first + e.1.1, first + e.1.2) ∈ A.pattern.entries :=
          hEntries _ (mem_blockEntries_cons.mpr (.inl ⟨e.1, hEntry, rfl⟩))
        have hUpper := Pattern.upper_of_mem hMem
        rw [Pattern.contains_iff, Coord.upper_eq_self hUpper]
        exact hMem
      obtain ⟨A₁, hAdd, hPattern₁⟩ := addStored_of_contains hStored
      have hTail : ∀ c ∈ blockEntries (first + b.numNodes) bodies, c ∈ A₁.pattern.entries := by
        intro c hc
        rw [hPattern₁]
        exact hEntries c (mem_blockEntries_cons.mpr (.inr hc))
      obtain ⟨A', hRest, hSame⟩ := ih hTail
      refine ⟨A', ?_, hSame.trans hPattern₁⟩
      rw [addBodies, hAdd]
      exact hRest

/-! ### All or nothing -/

/-- The two outcomes of adding a tangent matrix: all of it has been added to the blocks, or an
element matrix is not finite and nothing has been added. -/
inductive TangentOutcome (A : BlockMatrix α) : BlockMatrix α × Except ModelError Unit → Prop where
  | added {A' : BlockMatrix α} (hPattern : A'.pattern = A.pattern) :
      TangentOutcome A (A', .ok ())
  | failed (k : Nat) : TangentOutcome A (A, .error (.numericFailure k "tangent matrix"))

/-- That the tangent matrix of a model is added to any matrix that has the blocks of the pattern, as
a whole or not at all. -/
def AllOrNothing (m : Model α) : Prop :=
  ∀ x w A, (∀ c ∈ m.pattern.entries, c ∈ A.pattern.entries) → TangentOutcome A (m.tangentOf x w A)

/-- The tangent matrices of bodies are all there, or an element matrix of one of the bodies is not
finite. -/
theorem bodyTangentsOf_outcome {bodies : List (Model α)}
    (hBodies : ∀ b ∈ bodies, b.AllOrNothing) (first : Nat) (x : Motion α) (w : Weights α) :
    (∃ matrices, bodyTangentsOf first bodies x w = .ok matrices ∧ MatchBodies bodies matrices) ∨
      ∃ k, bodyTangentsOf first bodies x w = .error (.numericFailure k "tangent matrix") := by
  induction bodies generalizing first x with
  | nil => exact .inl ⟨[], by rw [bodyTangentsOf], .nil⟩
  | cons b bodies ih =>
      have hBody := hBodies b List.mem_cons_self (x.take b.numDofs) w b.makeTangent fun _ hc => hc
      have hRest := ih (fun b hb => hBodies b (List.mem_cons_of_mem _ hb))
        (first + b.numElements) (x.drop b.numDofs)
      rw [bodyTangentsOf]
      generalize b.tangentOf (x.take b.numDofs) w b.makeTangent = result at hBody
      cases hBody with
      | failed k => exact .inr ⟨first + k, rfl⟩
      | @added B hPattern =>
          rcases hRest with ⟨matrices, hOk, hMatch⟩ | ⟨k, hError⟩
          · refine .inl ⟨(b.numNodes, B) :: matrices, ?_, .cons ⟨rfl, hPattern⟩ hMatch⟩
            simp only [hOk]
            rfl
          · refine .inr ⟨k, ?_⟩
            simp only [hError]
            rfl

/-- A tangent matrix is added to any matrix that has the blocks of the pattern, as a whole or not at
all. -/
theorem tangentOf_outcome {m : Model α} (hm : m.WellFormed) : m.AllOrNothing := by
  induction m with
  | typed m =>
      intro x w A hA
      cases hm with
      | typed hm =>
          rw [tangentOf]
          split
          · exact .added rfl
          · cases hLocal : TypedModel.localTangents m.config w 0 (m.elementsAt x) with
            | error e =>
                obtain ⟨k, rfl⟩ := TypedModel.localTangents_eq_error hLocal
                exact .failed k
            | ok tangents =>
                obtain ⟨A', hAdd, hPattern⟩ := TypedModel.addTangents_of_wellFormed hm hA hLocal
                simp only [hAdd]
                exact .added hPattern
  | composite id P bodies ih =>
      intro x w A hA
      have hEntries : ∀ c ∈ blockEntries 0 bodies, c ∈ A.pattern.entries := fun c hc =>
        hA c (hm.mem_pattern_composite.mpr hc)
      cases hm with
      | composite hBodies hPattern =>
          rw [tangentOf]
          rcases bodyTangentsOf_outcome (fun b hb => ih b hb (hBodies b hb)) 0 x w with
            ⟨matrices, hOk, hMatch⟩ | ⟨k, hError⟩
          · obtain ⟨A', hAdd, hSame⟩ := addBodies_of_entries hMatch hEntries
            simp only [hOk, hAdd]
            exact .added hSame
          · simp only [hError]
            exact .failed k

end Model

end Elastodynamics
