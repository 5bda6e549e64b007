import Elastodynamics.Proofs.Model.Checks
import Elastodynamics.Proofs.Outcome
import Elastodynamics.Proofs.State.Evaluation
/-!
Evaluation without slots. Residual, tangent matrix and energy as functions of the motion alone:
every quantity is computed from the present motion, and each body is given its piece of it. In
coherent contents the evaluation with slots gives exactly these results, errors included, and the
contents stay coherent.
-/
namespace Elastodynamics

open Sparse

variable {α : Type} [Scalar α] [ElementFamily α]

/-- The elements with their data in a motion. -/
def TypedModel.elementsAt {κ : Kind α} (m : TypedModel α κ) (x : Motion α) :
    List ((kind κ).Element × (kind κ).Data) :=
  m.elements.toList.map fun e => (e, (kind κ).dataAt e x)

namespace Model

/-! ### Definitions -/

mutual

/-- The residual of a model for a motion, as it is written over a vector, and whether it is
complete. -/
def residualOf : Model α → Motion α → Array α → Array α × Except ModelError Unit
  | typed m, x, r =>
    TypedModel.addResiduals m.config x 0 (m.elementsAt x) (Array.replicate r.size 0)
  | composite _ _ bodies, x, r => bodyResidualsOf 0 bodies x r

/-- The residuals of bodies for the pieces of a motion, one after the other. -/
def bodyResidualsOf : (first : Nat) → List (Model α) → Motion α → Array α →
    Array α × Except ModelError Unit
  | _, [], _, r => (r, .ok ())
  | first, b :: bodies, x, r =>
    match b.residualOf (x.take b.numDofs) (r.extract 0 b.numDofs) with
    | (head, .error e) => (head ++ r.extract b.numDofs, .error (e.shiftElement first))
    | (head, .ok ()) =>
      let (tail, status) := bodyResidualsOf (first + b.numElements) bodies (x.drop b.numDofs)
        (r.extract b.numDofs)
      (head ++ tail, status)

end

mutual

/-- A matrix with the weighted tangent matrix of a model for a motion added to it. -/
def tangentOf : Model α → Motion α → Weights α → BlockMatrix α →
    BlockMatrix α × Except ModelError Unit
  | typed m, x, w, A =>
    if w.isZero then (A, .ok ())
    else
      match TypedModel.localTangents m.config w 0 (m.elementsAt x) with
      | .error e => (A, .error e)
      | .ok tangents => TypedModel.addTangents tangents A
  | composite _ _ bodies, x, w, A =>
    match bodyTangentsOf 0 bodies x w with
    | .error e => (A, .error e)
    | .ok matrices => addBodies 0 matrices A

/-- The tangent matrices of bodies for the pieces of a motion, with their numbers of nodes. -/
def bodyTangentsOf : (first : Nat) → List (Model α) → Motion α → Weights α →
    Except ModelError (List (Nat × BlockMatrix α))
  | _, [], _, _ => .ok []
  | first, b :: bodies, x, w =>
    match b.tangentOf (x.take b.numDofs) w b.makeTangent with
    | (_, .error e) => .error (e.shiftElement first)
    | (B, .ok ()) =>
      (bodyTangentsOf (first + b.numElements) bodies (x.drop b.numDofs) w).map
        ((b.numNodes, B) :: ·)

end

mutual

/-- The elastic energy of a model for a motion. -/
def energyOf : Model α → Motion α → Except ModelError α
  | typed m, x => TypedModel.addEnergies m.config 0 (m.elementsAt x) 0
  | composite _ _ bodies, x => bodyEnergiesOf 0 bodies x 0

/-- The energies of bodies for the pieces of a motion, added to a first energy. -/
def bodyEnergiesOf : (first : Nat) → List (Model α) → Motion α → α → Except ModelError α
  | _, [], _, energy => .ok energy
  | first, b :: bodies, x, energy =>
    match b.energyOf (x.take b.numDofs) with
    | .error e => .error (e.shiftElement first)
    | .ok y => bodyEnergiesOf (first + b.numElements) bodies (x.drop b.numDofs) (energy + y)

end

end Model

/-! ### Models of elements -/

/-- The elements come with their data in the present motion. -/
theorem TypedModel.Coherent.evalElements {κ : Kind α} {m : TypedModel α κ}
    {memo : Memo α (Value α)} (h : m.Coherent memo) : ∃ memo',
      m.evalElements memo = (m.elementsAt memo.motion, memo') ∧ m.Coherent memo' ∧
      memo'.motion = memo.motion := by
  obtain ⟨memo', hEval, hMemo', hMotion⟩ := h.eval
  refine ⟨memo', ?_, hMemo', hMotion⟩
  have hData (x : Motion α) : (m.dataAt x).elementData κ =
      m.elements.toList.map fun e => (kind κ).dataAt e x := by
    rw [dataAt, Value.elementData, dif_pos rfl]
  have hZip (l : List (kind κ).Element) (f : (kind κ).Element → (kind κ).Data) :
      l.zip (l.map f) = l.map fun e => (e, f e) := by
    induction l with
    | nil => rfl
    | cons e l ih => rw [List.map_cons, List.zip_cons_cons, ih, List.map_cons]
  simp only [TypedModel.evalElements, hEval, hData, hZip, elementsAt]

namespace Model

variable {m : Model α} {bodies : List (Model α)} {memo : Memo α (Value α)} {x : Motion α}
  {states : List (Contents α (Value α))}

/-- New states of the bodies, with every piece of the motion as before, may take the place of the
old ones. -/
theorem coherent_fill_bodies {id : SystemId} {P : Pattern}
    (h : memo.HoldsBodies (3 * totalNodes bodies) (CoherentAll bodies))
    (hStates : CoherentAll bodies (fun _ => true) memo.motion states) :
    (composite id P bodies).Coherent (memo.fill 0 (.bodies states)) :=
  coherent_composite.mpr (h.fill_bodies (hStates.mono fun _ _ => ⟨rfl, rfl⟩)).1

/-- The first of the bodies with every piece of the motion can be evaluated in its state. Whatever
contents with the same motion it is left with may take the place of that state. -/
theorem CoherentAll.head {b : Model α} (h : CoherentAll (b :: bodies) (fun _ => true) x states) :
    ∃ c rest, states = c :: rest ∧ c.owner = b.systemId ∧ b.Coherent c.memo ∧
      c.memo.motion = x.take b.numDofs ∧
      CoherentAll bodies (fun _ => true) (x.drop b.numDofs) rest ∧
      ∀ memo' rest', b.Coherent memo' → memo'.motion = c.memo.motion →
        CoherentAll bodies (fun _ => true) (x.drop b.numDofs) rest' →
        CoherentAll (b :: bodies) (fun _ => true) x ({ c with memo := memo' } :: rest') := by
  obtain ⟨c, rest, rfl, hOwner, hBody, hPiece, hRest⟩ := coherentAll_cons.mp h
  have hMotion : c.memo.motion = x.take b.numDofs := Motion.ext_get fun p => hPiece p rfl
  refine ⟨c, rest, rfl, hOwner, hBody, hMotion, hRest, fun memo' rest' hMemo' hMotion' hRest' => ?_⟩
  refine coherentAll_cons.mpr ⟨_, rest', rfl, hOwner, hMemo', fun p _ => ?_, hRest'⟩
  rw [hMotion', hMotion]

/-! ### The residual -/

omit [Scalar α] in
/-- A vector for bodies has a piece for the first one, and the rest is a vector for the others. -/
theorem size_extract_of_cons {b : Model α} {r : Array α}
    (hr : r.size = 3 * totalNodes (b :: bodies)) :
    (r.extract 0 b.numDofs).size = b.numDofs ∧
      (r.extract b.numDofs).size = 3 * totalNodes bodies := by
  rw [totalNodes] at hr
  rw [Array.size_extract, Array.size_extract, numDofs]
  omega

/-- That the residual of a model in coherent contents depends on the motion only. -/
def ResidualUncached (m : Model α) : Prop :=
  ∀ memo r, m.Coherent memo → r.size = m.numDofs → ∃ memo',
    m.residual memo r = (memo', m.residualOf memo.motion r) ∧ m.Coherent memo' ∧
    memo'.motion = memo.motion

theorem bodyResiduals_eq (hBodies : ∀ b ∈ bodies, b.ResidualUncached) (first : Nat) {r : Array α}
    (h : CoherentAll bodies (fun _ => true) x states) (hr : r.size = 3 * totalNodes bodies) :
    ∃ states', bodyResiduals first bodies states r =
        (states', bodyResidualsOf first bodies x r) ∧
      CoherentAll bodies (fun _ => true) x states' := by
  induction bodies generalizing first r x states with
  | nil =>
      cases coherentAll_nil.mp h
      exact ⟨[], by rw [bodyResiduals, bodyResidualsOf]; exact nofun, h⟩
  | cons b bodies ih =>
      obtain ⟨c, rest, rfl, hOwner, hBody, hMotion, hRest, hPut⟩ := h.head
      obtain ⟨hHead, hTail⟩ := size_extract_of_cons hr
      obtain ⟨memo', hResidual, hMemo', hMotion'⟩ :=
        hBodies b List.mem_cons_self c.memo _ hBody hHead
      have hCheck : b.checkResidual c (r.extract 0 b.numDofs) = .ok () := by
        rw [checkResidual, checkState_of_coherent hOwner hBody]
        exact checkVector_eq_ok_iff.mpr hHead
      rw [bodyResiduals, bodyResidualsOf, ← hMotion]
      simp only [hCheck, hResidual]
      cases hStatus : b.residualOf c.memo.motion (r.extract 0 b.numDofs) with
      | mk head status =>
          cases status with
          | error e =>
              exact ⟨_, rfl, hPut memo' rest hMemo' hMotion' hRest⟩
          | ok u =>
              obtain ⟨rest', hEval, hRest'⟩ := ih
                (fun b hb => hBodies b (List.mem_cons_of_mem _ hb)) (first + b.numElements) hRest
                hTail
              simp only [hEval]
              exact ⟨_, rfl, hPut memo' rest' hMemo' hMotion' hRest'⟩

/-- The residual in coherent contents is the residual of the motion. -/
theorem residual_uncached (m : Model α) : m.ResidualUncached := by
  induction m with
  | typed m =>
      intro memo r h _
      obtain ⟨memo', hEval, hMemo', hMotion⟩ := (coherent_typed.mp h).evalElements
      refine ⟨memo', ?_, coherent_typed.mpr hMemo', hMotion⟩
      rw [residual, residualOf, TypedModel.residual, hEval, ← hMotion]
  | composite id P bodies ih =>
      intro memo r h hr
      obtain ⟨held, states, hEval, hHeld, hMotion, hSynced, hStates⟩ :=
        (coherent_composite.mp h).evalBodies id
      rw [numDofs, numNodes] at hr
      obtain ⟨states', hBodies, hStates'⟩ := bodyResiduals_eq ih 0 hStates hr
      rw [← hMotion] at hStates'
      refine ⟨held.fill 0 (.bodies states'), ?_, coherent_fill_bodies hHeld hStates', hMotion⟩
      rw [residual, residualOf, hEval]
      simp only [hBodies]

/-! ### The tangent matrix -/

/-- That the tangent matrix of a model in coherent contents depends on the motion only. -/
def TangentUncached (m : Model α) : Prop :=
  ∀ memo w A, m.Coherent memo → ∃ memo',
    m.tangent memo w A = (memo', m.tangentOf memo.motion w A) ∧ m.Coherent memo' ∧
    memo'.motion = memo.motion

theorem bodyTangents_eq (hBodies : ∀ b ∈ bodies, b.TangentUncached)
    (hWellFormed : ∀ b ∈ bodies, b.WellFormed) (first : Nat) (w : Weights α)
    (h : CoherentAll bodies (fun _ => true) x states) :
    ∃ states', bodyTangents first bodies states w =
        (states', bodyTangentsOf first bodies x w) ∧
      CoherentAll bodies (fun _ => true) x states' := by
  induction bodies generalizing first x states with
  | nil =>
      cases coherentAll_nil.mp h
      exact ⟨[], by rw [bodyTangents, bodyTangentsOf]; exact nofun, h⟩
  | cons b bodies ih =>
      obtain ⟨c, rest, rfl, hOwner, hBody, hMotion, hRest, hPut⟩ := h.head
      obtain ⟨memo', hTangent, hMemo', hMotion'⟩ :=
        hBodies b List.mem_cons_self c.memo w b.makeTangent hBody
      have hCheck : b.checkTangent c b.makeTangent = .ok () := by
        rw [checkTangent, checkState_of_coherent hOwner hBody]
        exact checkMatrix_makeTangent (hWellFormed b List.mem_cons_self)
      rw [bodyTangents, bodyTangentsOf, ← hMotion]
      simp only [hCheck, hTangent]
      cases hStatus : b.tangentOf c.memo.motion w b.makeTangent with
      | mk B status =>
          cases status with
          | error e =>
              exact ⟨_, rfl, hPut memo' rest hMemo' hMotion' hRest⟩
          | ok u =>
              obtain ⟨rest', hEval, hRest'⟩ := ih
                (fun b hb => hBodies b (List.mem_cons_of_mem _ hb))
                (fun b hb => hWellFormed b (List.mem_cons_of_mem _ hb)) (first + b.numElements)
                hRest
              simp only [hEval]
              exact ⟨_, rfl, hPut memo' rest' hMemo' hMotion' hRest'⟩

/-- The tangent matrix in coherent contents is the tangent matrix of the motion. -/
theorem tangent_uncached (hm : m.WellFormed) : m.TangentUncached := by
  induction m with
  | typed m =>
      intro memo w A h
      rw [tangent, tangentOf, TypedModel.tangent]
      split
      · exact ⟨memo, rfl, h, rfl⟩
      · obtain ⟨memo', hEval, hMemo', hMotion⟩ := (coherent_typed.mp h).evalElements
        refine ⟨memo', ?_, coherent_typed.mpr hMemo', hMotion⟩
        rw [hEval]
        simp only
        cases TypedModel.localTangents m.config w 0 (m.elementsAt memo.motion) with
        | error e => rfl
        | ok tangents => rfl
  | composite id P bodies ih =>
      intro memo w A h
      cases hm with
      | composite hBodies hPattern =>
          obtain ⟨held, states, hEval, hHeld, hMotion, hSynced, hStates⟩ :=
            (coherent_composite.mp h).evalBodies id
          obtain ⟨states', hTangents, hStates'⟩ :=
            bodyTangents_eq (fun b hb => ih b hb (hBodies b hb)) hBodies 0 w hStates
          rw [← hMotion] at hStates'
          refine ⟨held.fill 0 (.bodies states'), ?_, coherent_fill_bodies hHeld hStates', hMotion⟩
          rw [tangent, tangentOf, hEval]
          simp only [hTangents]
          cases bodyTangentsOf 0 bodies memo.motion w with
          | error e => rfl
          | ok matrices => rfl

/-! ### The energy -/

/-- That the energy of a model in coherent contents depends on the motion only. -/
def EnergyUncached (m : Model α) : Prop :=
  ∀ memo, m.Coherent memo → ∃ memo',
    m.energy memo = (memo', m.energyOf memo.motion) ∧ m.Coherent memo' ∧
    memo'.motion = memo.motion

theorem bodyEnergies_eq (hBodies : ∀ b ∈ bodies, b.EnergyUncached) (first : Nat) (y : α)
    (h : CoherentAll bodies (fun _ => true) x states) :
    ∃ states', bodyEnergies first bodies states y =
        (states', bodyEnergiesOf first bodies x y) ∧
      CoherentAll bodies (fun _ => true) x states' := by
  induction bodies generalizing first x y states with
  | nil =>
      cases coherentAll_nil.mp h
      exact ⟨[], by rw [bodyEnergies, bodyEnergiesOf]; exact nofun, h⟩
  | cons b bodies ih =>
      obtain ⟨c, rest, rfl, hOwner, hBody, hMotion, hRest, hPut⟩ := h.head
      obtain ⟨memo', hEnergy, hMemo', hMotion'⟩ := hBodies b List.mem_cons_self c.memo hBody
      have hCheck : b.checkEnergy c = .ok () := checkState_of_coherent hOwner hBody _
      rw [bodyEnergies, bodyEnergiesOf, ← hMotion]
      simp only [hCheck, hEnergy]
      cases hStatus : b.energyOf c.memo.motion with
      | error e =>
          exact ⟨_, rfl, hPut memo' rest hMemo' hMotion' hRest⟩
      | ok z =>
          obtain ⟨rest', hEval, hRest'⟩ := ih
            (fun b hb => hBodies b (List.mem_cons_of_mem _ hb)) (first + b.numElements) (y + z)
            hRest
          simp only [hEval]
          exact ⟨_, rfl, hPut memo' rest' hMemo' hMotion' hRest'⟩

/-- The energy in coherent contents is the energy of the motion. -/
theorem energy_uncached (m : Model α) : m.EnergyUncached := by
  induction m with
  | typed m =>
      intro memo h
      obtain ⟨memo', hEval, hMemo', hMotion⟩ := (coherent_typed.mp h).evalElements
      refine ⟨memo', ?_, coherent_typed.mpr hMemo', hMotion⟩
      rw [energy, energyOf, TypedModel.energy, hEval]
  | composite id P bodies ih =>
      intro memo h
      obtain ⟨held, states, hEval, hHeld, hMotion, hSynced, hStates⟩ :=
        (coherent_composite.mp h).evalBodies id
      obtain ⟨states', hEnergies, hStates'⟩ :=
        bodyEnergies_eq ih 0 0 hStates
      rw [← hMotion] at hStates'
      refine ⟨held.fill 0 (.bodies states'), ?_, coherent_fill_bodies hHeld hStates', hMotion⟩
      rw [energy, energyOf, hEval]
      simp only [hEnergies]

/-! ### Checked evaluation -/

variable {s : State α}

/-- An evaluation gives what the motion determines, after the same checks, and keeps coherence. -/
theorem calcResidual_eq (h : m.Coherent s.memo) {r : Array α}
    (hCheck : m.checkResidual s.contents r = .ok ()) : ∃ memo',
      m.calcResidual s r = ({ s with memo := memo' }, m.residualOf s.motion r) ∧
      m.Coherent memo' ∧ memo'.motion = s.motion := by
  have hSize : r.size = m.numDofs := by
    obtain ⟨_, _, hVector⟩ := bind_eq_ok_iff.mp hCheck
    exact checkVector_eq_ok_iff.mp hVector
  obtain ⟨memo', hResidual, hMemo', hMotion⟩ := m.residual_uncached s.memo r h hSize
  refine ⟨memo', ?_, hMemo', hMotion⟩
  rw [calcResidual, hCheck]
  simp only [hResidual]
  rfl

theorem calcTangent_eq (hm : m.WellFormed) (h : m.Coherent s.memo) {w : Weights α}
    {A : BlockMatrix α} (hCheck : m.checkTangent s.contents A = .ok ()) : ∃ memo',
      m.calcTangent s w A = ({ s with memo := memo' }, m.tangentOf s.motion w A) ∧
      m.Coherent memo' ∧ memo'.motion = s.motion := by
  obtain ⟨memo', hTangent, hMemo', hMotion⟩ := tangent_uncached hm s.memo w A h
  refine ⟨memo', ?_, hMemo', hMotion⟩
  rw [calcTangent, hCheck]
  simp only [hTangent]
  rfl

theorem calcEnergy_eq (h : m.Coherent s.memo) (hCheck : m.checkEnergy s.contents = .ok ()) :
    ∃ memo', m.calcEnergy s = ({ s with memo := memo' }, m.energyOf s.motion) ∧
      m.Coherent memo' ∧ memo'.motion = s.motion := by
  obtain ⟨memo', hEnergy, hMemo', hMotion⟩ := m.energy_uncached s.memo h
  refine ⟨memo', ?_, hMemo', hMotion⟩
  rw [calcEnergy, hCheck]
  simp only [hEnergy]
  rfl

end Model

end Elastodynamics
