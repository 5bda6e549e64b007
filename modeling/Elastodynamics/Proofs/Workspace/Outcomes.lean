import Elastodynamics.Proofs.Model.Computed
import Elastodynamics.Proofs.Model.Reports
import Elastodynamics.Proofs.Sparse.Calls
import Elastodynamics.Proofs.Workspace.Reachable
/-!
Outcomes of evaluations in programs. After its checks an evaluation fails exactly where an element
reports a value that is not finite, and a tangent matrix is added as a whole or not at all.
-/
namespace Elastodynamics.Workspace

open Model Sparse

variable {α : Type} [Scalar α] [ElementFamily α] {W : Workspace α} {m : Model α} {s : State α}
  {w : Weights α} {A : BlockMatrix α}

/-! ### Evaluations after their checks -/

/-- What an evaluation does when the state and the matrix have passed the checks. -/
theorem calcTangent_of_checked (hW : W.Reachable) (hm : m ∈ W.models) (hs : s ∈ W.states)
    (hCheck : m.checkTangent s.contents A = .ok ()) :
    (m.calcTangent s w A).2 = m.tangentOf s.motion w A ∧
      TangentOutcome A (m.tangentOf s.motion w A) := by
  obtain ⟨_, hState, hMatrix⟩ := bind_eq_ok_iff.mp hCheck
  have hOwner : s.system.id = m.systemId := (checkState_eq_ok_iff.mp hState).1
  have hCoherent := (hW.sound.coherent m hm s hs hOwner).2
  have hWellFormed := hW.sound.wellFormed m hm
  obtain ⟨memo', hEval, _⟩ := calcTangent_eq hWellFormed hCoherent (w := w) hCheck
  refine ⟨?_, tangentOf_outcome hWellFormed _ _ _ (checkMatrix_eq_ok_iff.mp hMatrix).2⟩
  rw [hEval]

theorem Reachable.status_calcResidual (hW : W.Reachable) (hm : m ∈ W.models) (hs : s ∈ W.states)
    (hId : s.system.id = m.systemId) {r : Array α}
    (hCheck : m.checkResidual s.contents r = .ok ()) : (m.calcResidual s r).2.2 =
      verdict "residual" 0 ((m.sites s.motion).findIdx? (·.reports .residual)) := by
  obtain ⟨_, hCoherent⟩ := hW.sound.coherent m hm s hs hId
  obtain ⟨_, hEval, _⟩ := calcResidual_eq hCoherent hCheck
  rw [hEval, ← status_residualOf m s.motion r]

theorem Reachable.status_computeResidual (hW : W.Reachable) (hm : m ∈ W.models)
    (hs : s ∈ W.states) (hId : s.system.id = m.systemId) :
    ((m.computeResidual s).2.map fun _ => ()) =
      verdict "residual" 0 ((m.sites s.motion).findIdx? (·.reports .residual)) := by
  obtain ⟨_, hCoherent⟩ := hW.sound.coherent m hm s hs hId
  rw [computeResidual_eq hId hCoherent, ← status_residualOf m s.motion]
  cases (m.residualOf s.motion (Array.replicate m.numDofs 0)).2 <;> rfl

theorem Reachable.status_calcTangent (hW : W.Reachable) (hm : m ∈ W.models) (hs : s ∈ W.states)
    (hId : s.system.id = m.systemId) (w : Weights α) {A : BlockMatrix α}
    (hCheck : m.checkTangent s.contents A = .ok ()) : (m.calcTangent s w A).2.2 =
      verdict "tangent matrix" 0 ((m.sites s.motion).findIdx? (Site.reportsTangent w)) := by
  have hWellFormed := hW.sound.wellFormed m hm
  obtain ⟨_, hCoherent⟩ := hW.sound.coherent m hm s hs hId
  obtain ⟨_, hEval, _⟩ := calcTangent_eq hWellFormed hCoherent (w := w) hCheck
  obtain ⟨_, _, hMatrix⟩ := bind_eq_ok_iff.mp hCheck
  rw [hEval, ← status_tangentOf hWellFormed s.motion w (checkMatrix_eq_ok_iff.mp hMatrix).2]

theorem Reachable.status_calcEnergy (hW : W.Reachable) (hm : m ∈ W.models) (hs : s ∈ W.states)
    (hId : s.system.id = m.systemId) : ((m.calcEnergy s).2.map fun _ => ()) =
      verdict "elastic energy" 0 ((m.sites s.motion).findIdx? (·.reports .energy)) := by
  obtain ⟨_, hCoherent⟩ := hW.sound.coherent m hm s hs hId
  obtain ⟨_, hEval, _⟩ := calcEnergy_eq hCoherent (checkState_of_coherent hId hCoherent _)
  rw [hEval, ← status_energyOf m s.motion]

/-- A model and a state of it pass the check before a tangent matrix of the model. -/
theorem Reachable.checkTangent_makeTangent (hW : W.Reachable) (hm : m ∈ W.models)
    (hs : s ∈ W.states) (hId : s.system.id = m.systemId) :
    m.checkTangent s.contents m.makeTangent = .ok () := by
  obtain ⟨_, hCoherent⟩ := hW.sound.coherent m hm s hs hId
  rw [checkTangent, checkState_of_coherent hId hCoherent]
  exact checkMatrix_makeTangent (hW.sound.wellFormed m hm)

/-- A matrix with all blocks passes the check of every model with as many nodes. -/
theorem Reachable.checkTangent_of_full (hW : W.Reachable) (hm : m ∈ W.models)
    (hs : s ∈ W.states) (hId : s.system.id = m.systemId) (hA : A.pattern = .full m.numNodes) :
    m.checkTangent s.contents A = .ok () := by
  obtain ⟨_, hCoherent⟩ := hW.sound.coherent m hm s hs hId
  rw [checkTangent, checkState_of_coherent hId hCoherent]
  refine checkMatrix_eq_ok_iff.mpr ⟨congrArg Pattern.size hA, fun c hc => ?_⟩
  rw [hA, ← (hW.sound.wellFormed m hm).size_pattern]
  exact Pattern.mem_full_of_mem hc

/-! ### A program with a bound -/

/-- Rational numbers of which those up to a hundred count as finite. -/
def Bounded : Type := ℚ
deriving DecidableEq

/-- The test for the bound. -/
def withinBound (x : ℚ) : Bool := x ≤ 100

instance : Scalar Bounded where
  toZero := inferInstanceAs (Zero ℚ)
  toOne := inferInstanceAs (One ℚ)
  toAdd := inferInstanceAs (Add ℚ)
  toSub := inferInstanceAs (Sub ℚ)
  toNeg := inferInstanceAs (Neg ℚ)
  toMul := inferInstanceAs (Mul ℚ)
  toDiv := inferInstanceAs (Div ℚ)
  toRealOps := { (inferInstance : RealOps ℚ) with isFinite := withinBound }

/-- A soft tetrahedron and one that is too stiff for the bound. -/
def stiffening : List (Command Bounded Shape.tet4) :=
  let corner : List (Vec3 Bounded) := [⟨0, 0, 0⟩, ⟨1, 0, 0⟩, ⟨0, 1, 0⟩, ⟨0, 0, 1⟩]
  let properties (mu : Bounded) : Properties Bounded :=
    { law := .linearElastic, lame := ⟨mu, mu⟩, density := 1, damping := ⟨0, 0⟩,
      lumping := .consistent }
  [.addCells corner [.range 4] (properties 1),
   .addCells corner [.range 4] (properties (Scalar.ofNat 1000)),
   .build]

/-- A model that checks nothing, before anything is added to it. -/
def lenientEmpty : TypedModel Bounded Shape.tet4 × IdSupply :=
  TypedModel.ofConfig { Config.default with checkNumerics := false } ⟨0⟩

/-- Both tetrahedra in the model that checks nothing. -/
def lenient : TypedModel Bounded Shape.tet4 × IdSupply :=
  lenientEmpty.1.session stiffening lenientEmpty.2

/-- A model that checks values, before anything is added to it. -/
def strictEmpty : TypedModel Bounded Shape.tet4 × IdSupply := TypedModel.ofConfig .default lenient.2

/-- Both tetrahedra in the model that checks values. -/
def strict : TypedModel Bounded Shape.tet4 × IdSupply :=
  strictEmpty.1.session stiffening strictEmpty.2

/-- The model that checks values as the second body behind the other one. -/
def mixed (P : Pattern) : Model Bounded :=
  .composite strict.2.fresh.1 P [.typed lenient.1, .typed strict.1]

/-- The models of the program before the bodies are put together. -/
def bounded : Workspace Bounded where
  ids := strict.2
  models := [.typed strict.1, .typed strictEmpty.1, .typed lenient.1, .typed lenientEmpty.1]
  states := []

theorem reachable_bounded : bounded.Reachable := by
  have hCommands : ∀ c ∈ stiffening, c.Constructed := by
    simp [stiffening]
  have hLenientEmpty := Reachable.step (.start ⟨0⟩)
    (.newModel _ Shape.tet4 ({ Config.default with checkNumerics := false } : Config Bounded))
  have hLenient := Reachable.step hLenientEmpty
    (.session _ (m := lenientEmpty.1) List.mem_cons_self hCommands)
  have hStrictEmpty := Reachable.step hLenient (.newModel _ Shape.tet4 (.default : Config Bounded))
  exact .step hStrictEmpty (.session _ (m := strictEmpty.1) List.mem_cons_self hCommands)

/-- The program after it has made the model of both bodies and a state of it. -/
def mixedWorkspace (P : Pattern) : Workspace Bounded where
  ids := bounded.ids.fresh.2
  models := mixed P :: bounded.models
  states := [(mixed P).makeState]

/-- The bodies make a model. -/
theorem exists_mixed : ∃ P, ofBodies [.typed lenient.1, .typed strict.1] bounded.ids =
    (.ok (mixed P), bounded.ids.fresh.2) ∧ (mixedWorkspace P).Reachable := by
  have hBodies : ∀ b ∈ [Model.typed lenient.1, .typed strict.1], b ∈ bounded.models := by
    simp [bounded]
  obtain ⟨P, hOk, _⟩ := ofBodies_of_wellFormed
    (fun b hb => reachable_bounded.sound.wellFormed b (hBodies b hb)) bounded.ids
  have hComposed := Reachable.step reachable_bounded (.compose bounded hBodies hOk)
  exact ⟨P, hOk, .step hComposed (.makeState _ List.mem_cons_self)⟩

/-- The stiff element of the second body is the last one of four. -/
theorem findIdx?_mixed (P : Pattern) :
    ((mixed P).sites (mixed P).makeState.motion).findIdx? (Site.reportsTangent ⟨1, 1, 1⟩) =
      some 3 := by
  rw [mixed, sites]
  show (sitesOf _ (mixed (.empty 0)).makeState.motion).findIdx? _ = some 3
  decide +kernel

/-! ### All or nothing -/

/-- If the tangent matrix of a model, made of elements or of bodies, cannot be added, the matrix is
what it was before, with its expanded copy and the note whether that copy is up to date. When the
state and the matrix have passed the checks, the only possible error is that an element matrix is
not finite. -/
theorem calcTangent_error (hW : W.Reachable) (hm : m ∈ W.models) (hs : s ∈ W.states)
    {e : ModelError} (hError : (m.calcTangent s w A).2.2 = .error e) :
    (m.calcTangent s w A).2.1 = A ∧
      (m.checkTangent s.contents A = .ok () → ∃ k, e = .numericFailure k "tangent matrix") := by
  cases hCheck : m.checkTangent s.contents A with
  | error e' =>
      rw [calcTangent, hCheck]
      refine ⟨rfl, fun hOk => ?_⟩
      cases hOk
  | ok u =>
      obtain ⟨hEval, hOutcome⟩ := calcTangent_of_checked hW hm hs (w := w) hCheck
      rw [hEval] at hError ⊢
      generalize m.tangentOf s.motion w A = result at hOutcome hError
      cases hOutcome with
      | added hPattern => cases hError
      | failed k =>
          cases hError
          exact ⟨rfl, fun _ => ⟨k, rfl⟩⟩

/-- A matrix with all blocks of sixteen nodes, two of them not zero, that has been assembled. -/
def filledMatrix : BlockMatrix Bounded :=
  (BlockMatrix.ofPattern (.full 16)).runCalls
    [.addToBlock 9 0 ⟨0, 1, 1, 0, 0, 1, 0, 0, 0⟩, .addToBlock 2 2 1, .assemble]

/-- The last element of the second body is too stiff. The matrix has been filled and assembled
before, has blocks that couple the bodies, and stays as it is, with its expanded copy. -/
theorem calcTangent_error_mixed : ∃ P,
    ofBodies [.typed lenient.1, .typed strict.1] bounded.ids =
      (.ok (mixed P), bounded.ids.fresh.2) ∧
    filledMatrix.isAssembled = true ∧ filledMatrix.block? 0 9 = some ⟨0, 0, 0, 1, 0, 0, 1, 1, 0⟩ ∧
    (mixed P).checkTangent (mixed P).makeState.contents filledMatrix = .ok () ∧
    ((mixed P).calcTangent (mixed P).makeState ⟨1, 1, 1⟩ filledMatrix).2 =
      (filledMatrix, .error (.numericFailure 3 "tangent matrix")) := by
  obtain ⟨P, hOk, hW⟩ := exists_mixed
  have hId : (mixed P).makeState.system.id = (mixed P).systemId := (mixed P).id_system
  have hNodes : (mixed P).numNodes = 16 := by
    rw [mixed, numNodes]
    decide +kernel
  have hPattern : filledMatrix.pattern = .full (mixed P).numNodes :=
    (BlockMatrix.pattern_runCalls _ _).trans (congrArg Pattern.full hNodes.symm)
  have hCheck := hW.checkTangent_of_full List.mem_cons_self List.mem_cons_self hId hPattern
  have hError := hW.status_calcTangent List.mem_cons_self List.mem_cons_self hId ⟨1, 1, 1⟩ hCheck
  rw [findIdx?_mixed] at hError
  refine ⟨P, hOk, by decide +kernel, by decide +kernel, hCheck, Prod.ext ?_ hError⟩
  exact (calcTangent_error hW List.mem_cons_self List.mem_cons_self hError).1

end Elastodynamics.Workspace
