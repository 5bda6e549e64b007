import Mathlib.Algebra.GroupWithZero.Nat
import Elastodynamics.Proofs.Sparse.Construction
import Elastodynamics.Model.Composite
/-!
The structure of models. A well-formed model has the pattern of its elements, or of its bodies, at
every depth. Bodies that are well-formed always make a well-formed model, whose pattern has exactly
their blocks, moved by the numbers of nodes before them.
-/
namespace Elastodynamics

open Sparse

variable {α : Type} [ElementFamily α]

namespace Model

/-- Induction on a model: a composite model has the property if all of its bodies have it. -/
@[induction_eliminator]
theorem induct {motive : Model α → Prop}
    (typed : ∀ {κ : Kind α} (m : TypedModel α κ), motive (.typed m))
    (composite : ∀ id P bodies, (∀ b ∈ bodies, motive b) → motive (.composite id P bodies))
    (m : Model α) : motive m := by
  refine @Model.rec α _ motive (fun l => ∀ b ∈ l, motive b) @typed composite ?_ ?_ m
  · intro b hb
    cases hb
  · intro m l hm hl b hb
    rcases List.mem_cons.mp hb with rfl | hb
    · exact hm
    · exact hl b hb

/-! ### Sums over bodies -/

theorem totalNodes_eq_sum (bodies : List (Model α)) :
    totalNodes bodies = (bodies.map numNodes).sum := by
  induction bodies with
  | nil => simp [totalNodes]
  | cons b bodies ih => rw [totalNodes, ih, List.map_cons, List.sum_cons]

theorem totalElements_eq_sum (bodies : List (Model α)) :
    totalElements bodies = (bodies.map numElements).sum := by
  induction bodies with
  | nil => simp [totalElements]
  | cons b bodies ih => rw [totalElements, ih, List.map_cons, List.sum_cons]

theorem mem_blockEntries_cons {b : Model α} {bodies : List (Model α)} {first : Nat} {c : Coord} :
    c ∈ blockEntries first (b :: bodies) ↔
      (∃ e ∈ b.pattern.entries, (first + e.1, first + e.2) = c) ∨
        c ∈ blockEntries (first + b.numNodes) bodies := by
  rw [blockEntries, List.mem_append, List.mem_map]
  simp only [Array.mem_toList_iff]

/-- The blocks of bodies are those of each body, moved by the number of nodes before it. -/
theorem mem_blockEntries_iff {bodies : List (Model α)} {first : Nat} {c : Coord} :
    c ∈ blockEntries first bodies ↔ ∃ (k : Nat) (b : Model α) (offset : Nat),
      bodies[k]? = some b ∧ (nodeOffsets first bodies)[k]? = some offset ∧
        ∃ e ∈ b.pattern.entries, (offset + e.1, offset + e.2) = c := by
  induction bodies generalizing first with
  | nil => simp [blockEntries]
  | cons b bodies ih =>
      rw [mem_blockEntries_cons, ih, nodeOffsets]
      constructor
      · rintro (hHead | ⟨k, hTail⟩)
        · exact ⟨0, b, first, rfl, rfl, hHead⟩
        · exact ⟨k + 1, hTail⟩
      · rintro ⟨k, b', offset, hBody, hOffset, hEntry⟩
        cases k with
        | zero =>
            cases hBody
            cases hOffset
            exact .inl hEntry
        | succ k => exact .inr ⟨k, b', offset, hBody, hOffset, hEntry⟩

/-- The first node of a body follows the nodes of the bodies before it. -/
theorem getElem?_nodeOffsets {bodies : List (Model α)} (first : Nat) {k : Nat}
    (h : k < bodies.length) :
    (nodeOffsets first bodies)[k]? = some (first + totalNodes (bodies.take k)) := by
  induction bodies generalizing first k with
  | nil => cases h
  | cons b bodies ih =>
      rw [nodeOffsets]
      cases k with
      | zero =>
          rw [List.take_zero, totalNodes]
          rfl
      | succ k =>
          have hTail := ih (first + b.numNodes) (Nat.lt_of_succ_lt_succ h)
          rw [List.getElem?_cons_succ, hTail, List.take_succ_cons, totalNodes, Nat.add_assoc]

theorem length_nodeOffsets (bodies : List (Model α)) (first : Nat) :
    (nodeOffsets first bodies).length = bodies.length := by
  induction bodies generalizing first with
  | nil => rfl
  | cons b bodies ih => rw [nodeOffsets, List.length_cons, List.length_cons, ih]

theorem le_of_getElem?_nodeOffsets {bodies : List (Model α)} {first k offset : Nat}
    (h : (nodeOffsets first bodies)[k]? = some offset) : first ≤ offset := by
  obtain ⟨hk, _⟩ := List.getElem?_eq_some_iff.mp h
  rw [length_nodeOffsets] at hk
  rw [getElem?_nodeOffsets first hk] at h
  cases h
  exact Nat.le_add_right _ _

variable [Scalar α]

theorem systems_eq_map (bodies : List (Model α)) : systems bodies = bodies.map system := by
  induction bodies with
  | nil => simp [systems]
  | cons b bodies ih => rw [systems, ih, List.map_cons]

theorem id_system (m : Model α) : m.system.id = m.systemId := by
  cases m with
  | typed m => rw [system, systemId, TypedModel.system]
  | composite id P bodies => rw [system, systemId, System.ofBodies]

/-- The system of a model has three degrees of freedom per node of the model. -/
theorem numDofs_system (m : Model α) : m.system.numDofs = m.numDofs := by
  induction m with
  | typed m =>
      rw [system, numDofs, numNodes, System.numDofs, TypedModel.system, Stacked.size_ofNodes,
        Array.length_toList]
  | composite id P bodies ih =>
      rw [system, numDofs, numNodes, System.numDofs, System.ofBodies, systems_eq_map]
      induction bodies with
      | nil => simp [totalNodes]
      | cons b bodies ihBodies =>
          have hHead : b.system.referencePositions.size = 3 * b.numNodes :=
            ih b List.mem_cons_self
          have hTail := ihBodies fun b hb => ih b (List.mem_cons_of_mem _ hb)
          rw [List.map_cons, List.map_cons, List.foldr_cons, Array.size_append, hHead, hTail,
            totalNodes, Nat.mul_add]

/-! ### Well-formed models -/

end Model

/-- A model of elements that were made in the ways of their kind, with the pattern of these
elements. -/
structure TypedModel.WellFormed {κ : Kind α} (m : TypedModel α κ) : Prop where
  constructed : ∀ e ∈ m.elements, (kind κ).Constructed e
  pattern : Pattern.ofElements m.referencePositions.size
    (m.elements.toList.map fun e => ((kind κ).nodes e).toList) = .ok m.pattern

namespace Model

/-- A model that is well-formed at every depth. -/
inductive WellFormed : Model α → Prop where
  | typed {κ : Kind α} {m : TypedModel α κ} (h : m.WellFormed) : WellFormed (.typed m)
  | composite {id : SystemId} {P : Pattern} {bodies : List (Model α)}
      (hBodies : ∀ b ∈ bodies, b.WellFormed)
      (hPattern : Pattern.ofEntries (totalNodes bodies) (blockEntries 0 bodies) = .ok P) :
      WellFormed (.composite id P bodies)

variable {m : Model α} {bodies : List (Model α)}

theorem WellFormed.of_typed {κ : Kind α} {m : TypedModel α κ} (h : (Model.typed m).WellFormed) :
    m.WellFormed := by
  cases h with
  | typed h => exact h

theorem WellFormed.size_pattern (h : m.WellFormed) : m.pattern.size = m.numNodes := by
  cases h with
  | typed h =>
      rw [Model.pattern, numNodes]
      exact Pattern.size_of_ofEntries h.pattern
  | composite hBodies hPattern =>
      rw [Model.pattern, numNodes]
      exact Pattern.size_of_ofEntries hPattern

theorem WellFormed.body {id : SystemId} {P : Pattern}
    (h : (Model.composite id P bodies).WellFormed) {b : Model α} (hb : b ∈ bodies) :
    b.WellFormed := by
  cases h with
  | composite hBodies hPattern => exact hBodies b hb

/-! ### The blocks of bodies -/

/-- The blocks of bodies lie on or above the diagonal, among the rows and columns of the bodies. -/
theorem bounds_of_mem_blockEntries (hBodies : ∀ b ∈ bodies, b.WellFormed) {first : Nat} {c : Coord}
    (hc : c ∈ blockEntries first bodies) :
    first ≤ c.1 ∧ c.1 ≤ c.2 ∧ c.2 < first + totalNodes bodies := by
  induction bodies generalizing first with
  | nil => simp [blockEntries] at hc
  | cons b bodies ih =>
      rw [totalNodes]
      rcases mem_blockEntries_cons.mp hc with ⟨e, he, rfl⟩ | hc
      · have hUpper := Pattern.upper_of_mem he
        have hLt := Pattern.lt_size_of_mem he
        rw [(hBodies b List.mem_cons_self).size_pattern] at hLt
        simp only
        omega
      · have hTail := ih (fun b hb => hBodies b (List.mem_cons_of_mem _ hb)) hc
        omega

/-- The blocks of bodies come in row-major order. -/
theorem sorted_blockEntries (hBodies : ∀ b ∈ bodies, b.WellFormed) (first : Nat) :
    (blockEntries first bodies).Pairwise fun a b => a.before b = true := by
  induction bodies generalizing first with
  | nil => simp [blockEntries]
  | cons b bodies ih =>
      have hTail : ∀ b ∈ bodies, b.WellFormed := fun b hb => hBodies b (List.mem_cons_of_mem _ hb)
      rw [blockEntries, List.pairwise_append]
      refine ⟨?_, ih hTail _, ?_⟩
      · rw [List.pairwise_map]
        apply b.pattern.sorted.imp
        intro c d hcd
        rw [Coord.before_iff] at hcd ⊢
        simp only
        omega
      · intro c hc d hd
        obtain ⟨e, he, rfl⟩ := List.mem_map.mp hc
        have he' : e ∈ b.pattern.entries := by simpa using he
        have hUpper := Pattern.upper_of_mem he'
        have hLt := Pattern.lt_size_of_mem he'
        rw [(hBodies b List.mem_cons_self).size_pattern] at hLt
        have hBounds := bounds_of_mem_blockEntries hTail hd
        rw [Coord.before_iff]
        simp only
        omega

/-- Well-formed bodies always make a model. Its pattern has exactly the blocks of the bodies. -/
theorem ofBodies_of_wellFormed (hBodies : ∀ b ∈ bodies, b.WellFormed) (ids : IdSupply) :
    ∃ P, ofBodies bodies ids = (.ok (.composite ids.fresh.1 P bodies), ids.fresh.2) ∧
      P.entries.toList = blockEntries 0 bodies ∧
      (composite ids.fresh.1 P bodies).WellFormed := by
  have hBounds {c : Coord} (hc : c ∈ blockEntries 0 bodies) :=
    bounds_of_mem_blockEntries hBodies hc
  have hInside : ∀ c ∈ blockEntries 0 bodies, Pattern.inside (totalNodes bodies) c = true := by
    intro c hc
    have := hBounds hc
    rw [Pattern.inside_iff]
    omega
  obtain ⟨P, hP, hEntries⟩ := Pattern.ofEntries_of_sorted hInside (fun c hc => (hBounds hc).2.1)
    (sorted_blockEntries hBodies 0)
  refine ⟨P, ?_, hEntries, .composite hBodies hP⟩
  rw [ofBodies, hP]

/-- The pattern of a composite model has the blocks of its bodies and no others. -/
theorem WellFormed.mem_pattern_composite {id : SystemId} {P : Pattern}
    (h : (Model.composite id P bodies).WellFormed) {c : Coord} :
    c ∈ P.entries ↔ c ∈ blockEntries 0 bodies := by
  cases h with
  | composite hBodies hPattern =>
      have hUpper {d : Coord} (hd : d ∈ blockEntries 0 bodies) : d.upper = d :=
        Coord.upper_eq_self (bounds_of_mem_blockEntries hBodies hd).2.1
      rw [Pattern.mem_of_ofEntries hPattern]
      constructor
      · rintro ⟨d, hd, rfl⟩
        rwa [hUpper hd]
      · intro hc
        exact ⟨c, hc, hUpper hc⟩

end Model

end Elastodynamics
