import Elastodynamics.Proofs.Calculus.Real
import Elastodynamics.Proofs.Element.Reference
import Elastodynamics.Proofs.Material.NeoHookean
import Elastodynamics.Proofs.Model.Cells
import Elastodynamics.Proofs.Model.Polynomials
/-!
Energy, residual and stiffness matrix of a model as successive derivatives. Three quantities are
computed for each material, and they pass through deformation gradients, quadrature, completion by
symmetry and assembly, each in its own way; at the end one is still the derivative of the other.
-/
namespace Elastodynamics

namespace Workspace

/-- Energy, residual and stiffness matrix are successive derivatives in every model of elements that
a program can reach, whatever its parameters, at all positions and in all directions. Without
Neo-Hookean materials they are so over every field with a half: as functions of the time along a
line they have the values of polynomials, and computed with polynomials instead of scalars they are
these polynomials, also where a field is too small to tell them by their values. Over the real
numbers they are so for all materials, at positions where the deformation gradients of Neo-Hookean
elements have positive determinants. -/
theorem successive_derivatives :
    (∀ (K : Type) [ExactScalar K] [Quadrature.Rules K] (W : Workspace K) (S : Shape)
      (m : TypedModel K S) (x d : Array K), W.Reachable → .typed m ∈ W.models →
      x.size = (Model.typed m).numDofs → d.size = (Model.typed m).numDofs →
      (∀ e : Element S K, e ∈ m.elements → e.properties.law ≠ .neoHookean) →
      m.SuccessiveDerivatives .polynomial x d ∧
      ∀ [RealOps (Polynomial K)] [Quadrature.Rules (Polynomial K)],
        m.PolynomialDerivatives x d) ∧
    ∀ [Quadrature.Rules ℝ] (W : Workspace ℝ) (S : Shape) (m : TypedModel ℝ S) (x d : Array ℝ),
      W.Reachable → .typed m ∈ W.models → x.size = (Model.typed m).numDofs →
      d.size = (Model.typed m).numDofs →
      (∀ e : Element S ℝ, e ∈ m.elements → e.properties.law = .neoHookean → ∀ q ∈ e.points,
        0 < (Element.deformation (Stacked.gather e.nodes x) q).det) →
      m.SuccessiveDerivatives .real x d := by
  have hWellFormed {K : Type} [ExactScalar K] [Quadrature.Rules K] {W : Workspace K} {S : Shape}
      {m : TypedModel K S} (hW : W.Reachable) (hm : .typed m ∈ W.models) : m.WellFormed :=
    (hW.sound.wellFormed _ hm).of_typed
  refine ⟨fun K _ _ W S m x d hW hm hx hd hLaw => ⟨?_, fun [_] [_] => ?_⟩,
    fun [_] W S m x d hW hm hx hd hDet => ?_⟩
  · exact (hWellFormed hW hm).successiveDerivatives hx hd fun e he q _ =>
      Law.hasDerivatives_of_ne _ _ _ (hLaw e he)
  · exact (hWellFormed hW hm).polynomialDerivatives hd hLaw hx
  · exact (hWellFormed hW hm).successiveDerivatives hx hd fun e he q hq =>
      Law.hasDerivatives_real fun hNeoHookean => hDet e he hNeoHookean q hq

/-! ### A program with rubber -/

/-- The vertices of a tetrahedron over the real numbers. -/
noncomputable def rubberCell : Vector (Vec3 ℝ) 4 :=
  #v[⟨0, 0, 0⟩, ⟨1, 0, 0⟩, ⟨0, 1, 0⟩, ⟨0, 0, 1⟩]

noncomputable def rubberProperties : Properties ℝ :=
  { law := .neoHookean, lame := ⟨1, 2⟩, density := 1, damping := .none, lumping := .consistent }

/-- The model before anything is added to it. -/
noncomputable def rubberEmpty : TypedModel ℝ Shape.tet4 := (TypedModel.ofConfig .default ⟨0⟩).1

noncomputable def rubberCommands : List (Command ℝ Shape.tet4) :=
  [.addCells rubberCell.toList [.range 4] rubberProperties, .build]

/-- The model of the Neo-Hookean tetrahedron. -/
noncomputable def rubberModel : TypedModel ℝ Shape.tet4 :=
  (rubberEmpty.session rubberCommands ⟨2⟩).1

theorem exists_rubberElement : ∃ e : Element .tet4 ℝ,
    Element.ofVertices (S := .tet4) (.range 4) rubberCell.toList rubberProperties = .ok e := by
  have hJacobian (ξ : Vec3 ℝ) :
      fieldGradient rubberCell (Shape.gradients .tet4 ξ) = Mat3.diagonal (1 / 2) := by
    rw [fieldGradient, ← Fin.sum_univ_def, Fin.sum_univ_four]
    ext <;> simp [Mat3.add_def, Mat3.outer, Mat3.diagonal, rubberCell, Shape.gradients, Vector.get,
      Scalar.half_eq]
  have hDet (ξ : Vec3 ℝ) : (fieldGradient rubberCell (Shape.gradients .tet4 ξ)).det ≠ 0 := by
    rw [hJacobian]
    norm_num [Mat3.det, Mat3.diagonal]
  exact Element.exists_ofVertices (S := .tet4) _ _ hDet fun ξ =>
    Element.isDegenerate_eq_false rfl (hDet ξ)

/-- The tetrahedron is accepted. -/
theorem size_elements_rubber : rubberModel.elements.size = 1 := by
  obtain ⟨e, he⟩ := exists_rubberElement
  have hCell : Builder.elementOfCell (α := ℝ) (κ := Shape.tet4) rubberCell.toList.toArray 0
      rubberProperties (.range 4) = .ok e := by
    refine bind_eq_ok_iff.mpr ⟨(), rfl, ?_⟩
    have hNodes : (Vector.range 4).map (0 + ·) = Vector.range 4 := by simp
    rw [hNodes]
    exact he
  have hCells : Builder.elementsOfCells (α := ℝ) (κ := Shape.tet4) rubberCell.toList.toArray
      (Builder.ofModel rubberEmpty).numNodes rubberProperties
      (Builder.ofModel rubberEmpty).numElements [.range 4] = .ok [e] := by
    show Builder.elementsOfCells (α := ℝ) (κ := Shape.tet4) _ 0 _ 0 _ = _
    rw [Builder.elementsOfCells, hCell]
    rfl
  have hAdd := Builder.addCells_of_elements (b := .ofModel rubberEmpty) rfl hCells
  show (((Builder.ofModel rubberEmpty).addCells rubberCell.toList [.range 4]
    rubberProperties).1.build ⟨2⟩).1.model.elements.size = 1
  rw [hAdd]
  dsimp only
  rw [(Builder.build_of_open (b := (Builder.ofModel rubberEmpty).stage _ _) rfl ⟨2⟩).1]
  rfl

theorem cellBuilt_rubber : rubberModel.CellBuilt := by
  refine .session (.ofConfig .default ⟨0⟩) ?_ ?_
  · simp [rubberCommands]
  · simp [rubberCommands, Builder.OnlyCells]

/-- The models of the program. -/
noncomputable def rubber : Workspace ℝ where
  ids := (rubberEmpty.session rubberCommands ⟨2⟩).2
  models := [.typed rubberModel, .typed rubberEmpty]
  states := []

theorem reachable_rubber : rubber.Reachable := by
  have hNew := Reachable.step (.start ⟨0⟩) (.newModel _ Shape.tet4 (.default : Config ℝ))
  have hCommands : ∀ c ∈ rubberCommands, c.Constructed := by
    simp [rubberCommands]
  exact .step hNew (.session _ (m := rubberEmpty) List.mem_cons_self hCommands)

/-- Positions far from those of the tetrahedron in the corner of the unit cube. -/
def farPositions : Array ℚ := (Array.range 12).map fun k : Nat => (k * k : ℚ)

/-- A direction for every component of four nodes. -/
def fourDirections : Array ℚ := (Array.range 12).map fun k : Nat => (k : ℚ)

/-- The linear tetrahedron, however far its nodes have moved, with an energy that is a polynomial,
and the Neo-Hookean tetrahedron in its reference positions, where its deformation gradient is the
identity. -/
theorem successive_derivatives_rubber :
    (cornerSession.1.SuccessiveDerivatives .polynomial farPositions fourDirections ∧
      ∃ _ : RealOps (Polynomial ℚ),
        cornerSession.1.PolynomialDerivatives farPositions fourDirections ∧
        ∃ E, cornerSession.1.overPolynomials.energyAt
          (.atRest (Stacked.line farPositions fourDirections)) = .ok E) ∧
    rubberModel.elements.size = 1 ∧
    rubberModel.SuccessiveDerivatives .real (Stacked.ofNodes rubberModel.referencePositions.toList)
      ((Array.range (Model.typed rubberModel).numDofs).map fun k : Nat => (k : ℝ)) := by
  have hx : farPositions.size = (Model.typed cornerSession.1).numDofs := by decide +kernel
  have hd : fourDirections.size = (Model.typed cornerSession.1).numDofs := by decide +kernel
  obtain ⟨hFunctions, hPolynomials⟩ := successive_derivatives.1 ℚ corner .tet4 cornerSession.1
    farPositions fourDirections reachable_corner List.mem_cons_self hx hd (by decide +kernel)
  refine ⟨⟨hFunctions, ?_⟩, size_elements_rubber, ?_⟩
  · let ops : RealOps (Polynomial ℚ) := ⟨id, id, fun _ => true, fun _ => false, fun _ _ => true, 0⟩
    have hSized : (Motion.atRest (Stacked.line farPositions fourDirections)).Sized
        (Model.typed cornerSession.1).numDofs := by
      rw [← Stacked.size_line hx hd]
      exact Motion.sized_atRest _
    have hUnchecked : (cornerSession.1.map Polynomial.C).config.RejectsNone :=
      Config.rejectsNone_of_unchecked (by decide +kernel)
    exact ⟨ops, hPolynomials, (hPolynomials.evaluated hUnchecked _ hSized).1⟩
  · refine successive_derivatives.2 rubber .tet4 rubberModel _ _ reachable_rubber
      List.mem_cons_self (Stacked.size_ofNodes _) (by simp) fun e he _ q hq => ?_
    rw [Element.deformation_eq_one_of_placed (cellBuilt_rubber.placed e he) hq, Mat3.det_one]
    exact one_pos

end Workspace

end Elastodynamics
