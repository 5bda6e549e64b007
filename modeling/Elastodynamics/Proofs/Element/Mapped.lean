import Elastodynamics.Proofs.Element.Forces
import Elastodynamics.Proofs.Element.Integrals
import Elastodynamics.Proofs.Material.Polynomials
/-!
Elements over another scalar type. A map that respects sums, differences, products and the half goes
through everything that an element computes with these operations. It need not respect the tests of
the scalar types: the only one that matters leaves out a term that is zero anyway.
-/
namespace Elastodynamics

/-! ### Maps of data -/

section

variable {α β γ : Type} {S : Shape}

def QuadraturePoint.map {n : Nat} (f : α → β) (q : QuadraturePoint n α) : QuadraturePoint n β where
  weight := f q.weight
  gradients := q.gradients.map (Vec3.map f)

theorem QuadraturePoint.get_gradients_map {n : Nat} (f : α → β) (q : QuadraturePoint n α)
    (a : Fin n) : (q.map f).gradients.get a = (q.gradients.get a).map f :=
  vector_get_map _ _ a

def Dense.map {m n : Nat} (f : α → β) (A : Dense α m n) : Dense β m n :=
  .ofFn fun i j => f (A.get i j)

def Properties.map (f : α → β) (p : Properties α) : Properties β where
  law := p.law
  lame := p.lame.map f
  density := f p.density
  damping := ⟨f p.damping.massCoefficient, f p.damping.stiffnessCoefficient⟩
  lumping := p.lumping

/-- The element with the same nodes and all its data mapped. -/
def Element.map (f : α → β) (e : Element S α) : Element S β where
  nodes := e.nodes
  points := e.points.map (QuadraturePoint.map f)
  mass := e.mass.map f
  properties := e.properties.map f

def LocalMotion.map {n : Nat} (f : α → β) (m : LocalMotion n α) : LocalMotion n β where
  positions := m.positions.map (Vec3.map f)
  velocities := m.velocities.map (Vec3.map f)
  accelerations := m.accelerations.map (Vec3.map f)

/-- The element mapped twice is the element mapped once. -/
theorem Element.map_map (f : α → β) (g : β → γ) (e : Element S α) :
    (e.map f).map g = e.map (g ∘ f) := by
  have hVectors (n : Nat) (v : Vector (Vec3 α) n) :
      (v.map (Vec3.map f)).map (Vec3.map g) = v.map (Vec3.map (g ∘ f)) := by
    rw [Vector.map_map]
    rfl
  have hPoints : (e.points.map (QuadraturePoint.map f)).map (QuadraturePoint.map g) =
      e.points.map (QuadraturePoint.map (g ∘ f)) := by
    rw [List.map_map]
    refine List.map_congr_left fun q _ => ?_
    simp only [Function.comp_apply, QuadraturePoint.map, hVectors]
  have hMass : (e.mass.map f).map g = e.mass.map (g ∘ f) := by
    ext i j
    simp [Dense.map]
  rw [map, map, map, hPoints, hMass]
  rfl

theorem Element.map_id (e : Element S α) : e.map id = e := by
  have hPoints : e.points.map (QuadraturePoint.map id) = e.points := by
    refine (List.map_congr_left fun q _ => ?_).trans (List.map_id _)
    exact congrArg (QuadraturePoint.mk q.weight) (Vector.map_id _)
  have hMass : e.mass.map id = e.mass := by
    ext i j
    exact Dense.get_ofFn _ i j
  rw [map, hPoints, hMass]
  rfl

end

variable {α β : Type} [Scalar α] [Scalar β] (φ : Scalar.Hom α β)

/-! ### Sums -/

theorem Scalar.Hom.map_list_sum (l : List α) : φ.toFun l.sum = (l.map φ.toFun).sum := by
  induction l with
  | nil => exact φ.map_zero
  | cons x l ih => rw [List.map_cons, List.sum_cons, List.sum_cons, φ.map_add, ih]

namespace Vec3

theorem map_zero : (0 : Vec3 α).map φ.toFun = 0 := by
  ext <;> exact φ.map_zero

theorem map_add (u v : Vec3 α) : (u + v).map φ.toFun = u.map φ.toFun + v.map φ.toFun := by
  ext <;> exact φ.map_add _ _

theorem map_sub (u v : Vec3 α) : (u - v).map φ.toFun = u.map φ.toFun - v.map φ.toFun := by
  ext <;> exact φ.map_sub _ _

theorem map_scale (v : Vec3 α) (s : α) :
    (v.scale s).map φ.toFun = (v.map φ.toFun).scale (φ.toFun s) := by
  ext <;> exact φ.map_mul _ _

theorem list_sum_map (l : List (Vec3 α)) :
    l.sum.map φ.toFun = (l.map (Vec3.map φ.toFun)).sum := by
  induction l with
  | nil => exact map_zero φ
  | cons v l ih => rw [List.map_cons, List.sum_cons, List.sum_cons, map_add, ih]

end Vec3

theorem Mat3.list_sum_map (l : List (Mat3 α)) :
    l.sum.map φ.toFun = (l.map (Mat3.map φ.toFun)).sum := by
  induction l with
  | nil => ext <;> exact φ.map_zero
  | cons A l ih => rw [List.map_cons, List.sum_cons, List.sum_cons, map_add, ih]

/-! ### Elements -/

theorem fieldGradient_map {n : Nat} (v g : Vector (Vec3 α) n) :
    fieldGradient (v.map (Vec3.map φ.toFun)) (g.map (Vec3.map φ.toFun)) =
      (fieldGradient v g).map φ.toFun := by
  simp only [fieldGradient, Mat3.list_sum_map, List.map_map, Function.comp_def, Mat3.map_outer,
    vector_get_map]

namespace Element

variable {S : Shape} (e : Element S α) (x : Vector (Vec3 α) S.nodeCount)

theorem deformation_map (q : QuadraturePoint S.nodeCount α) :
    deformation (x.map (Vec3.map φ.toFun)) (q.map φ.toFun) = (deformation x q).map φ.toFun :=
  fieldGradient_map φ x q.gradients

/-- The inertial forces of the mapped element are the mapped ones. -/
theorem inertialForce_map (m : LocalMotion S.nodeCount α) (g : Vec3 α) (b : Fin S.nodeCount) :
    (e.map φ.toFun).inertialForce (m.map φ.toFun) (g.map φ.toFun) b =
      (e.inertialForce m g b).map φ.toFun := by
  have hMass (a b : Fin S.nodeCount) : (e.map φ.toFun).mass.get a b = φ.toFun (e.mass.get a b) :=
    Dense.get_ofFn _ a b
  have hRow : (e.map φ.toFun).mass.rowSum b = φ.toFun (e.mass.rowSum b) := by
    simp only [Dense.rowSum, hMass, φ.map_list_sum, List.map_map, Function.comp_def]
  rw [inertialForce, inertialForce, Vec3.map_sub, Vec3.list_sum_map, Vec3.map_scale, hRow,
    List.map_map]
  simp only [LocalMotion.map, vector_get_map, Function.comp_def, Vec3.map_scale, Vec3.map_add,
    hMass]
  rfl

variable {e} (hLaw : e.properties.law ≠ .neoHookean)

include hLaw

theorem energy_map : ((e.map φ.toFun).computeData (x.map (Vec3.map φ.toFun))).energy =
    φ.toFun (e.computeData x).energy := by
  rw [energy_eq, energy_eq, φ.map_list_sum, map, List.map_map, List.map_map]
  refine congrArg List.sum (List.map_congr_left fun q _ => ?_)
  simp only [Function.comp_apply, φ.map_mul, deformation_map, ← Law.energy_map φ _ _ hLaw]
  rfl

/-- The elastic forces of the mapped element at mapped positions are the mapped ones. -/
theorem elasticForce_map (b : Fin S.nodeCount) :
    (e.map φ.toFun).elasticForce ((e.map φ.toFun).computeData (x.map (Vec3.map φ.toFun))) b =
      (e.elasticForce (e.computeData x) b).map φ.toFun := by
  rw [elasticForce_eq, elasticForce_eq, Vec3.list_sum_map, map, List.map_map, List.map_map]
  refine congrArg List.sum (List.map_congr_left fun q _ => ?_)
  simp only [Function.comp_apply, Vec3.map_scale, Mat3.map_mulVec, deformation_map,
    ← Law.stress_map φ _ _ hLaw, ← QuadraturePoint.get_gradients_map]
  rfl

end Element

/-! ### Exact scalars -/

theorem Vec3.map_finset_sum {K L ι : Type} [ExactScalar K] [ExactScalar L] (φ : Scalar.Hom K L)
    (s : Finset ι) (v : ι → Vec3 K) :
    (∑ i ∈ s, v i).map φ.toFun = ∑ i ∈ s, (v i).map φ.toFun :=
  map_sum (⟨⟨Vec3.map φ.toFun, map_zero φ⟩, map_add φ⟩ : Vec3 K →+ Vec3 L) v s

namespace Element

variable {L : Type} [ExactScalar L] {S : Shape} (ψ : Scalar.Hom α L) (e : Element S α)

/-- When velocities are zero, or there is no damping by stiffness, the residual consists of inertial
and elastic forces. -/
theorem get_residual_map {data : ElementData S.nodeCount α} {m : LocalMotion S.nodeCount α}
    (hStill : (∀ a, m.velocities.get a = 0) ∨ e.properties.damping.stiffnessCoefficient = 0)
    (g : Vec3 α) (b : Fin S.nodeCount) : ((e.residual data m g).get b).map ψ.toFun =
      (e.inertialForce m g b + e.elasticForce data b).map ψ.toFun := by
  have hDamping : ((stiffnessVelocity data m b).scale
      e.properties.damping.stiffnessCoefficient).map ψ.toFun = 0 := by
    rw [Vec3.map_scale]
    rcases hStill with hVelocities | hNone
    · have hProducts : (stiffnessVelocity data m b).map ψ.toFun = 0 := by
        simp [stiffnessVelocity, Vec3.list_sum_map, Function.comp_def, Mat3.map_mulVec, hVelocities,
          Vec3.map_zero]
      rw [hProducts, Vec3.zero_scale]
    · rw [hNone, ψ.map_zero, Vec3.scale_zero]
  rw [residual, vector_get_ofFn]
  split
  · rfl
  · rw [Vec3.map_add, hDamping, add_zero]

end Element

/-- Maps between exact scalars respect the stiffness matrix. -/
theorem Element.get_stiffness_map {K L : Type} [ExactScalar K] [ExactScalar L] (φ : Scalar.Hom K L)
    {S : Shape} {e : Element S K} (hLaw : e.properties.law ≠ .neoHookean)
    (x : Vector (Vec3 K) S.nodeCount) (a b : Fin S.nodeCount) :
    ((e.map φ.toFun).computeData (x.map (Vec3.map φ.toFun))).stiffness.get a b =
      ((e.computeData x).stiffness.get a b).map φ.toFun := by
  rw [get_stiffness, get_stiffness, integratedContraction, integratedContraction,
    Mat3.list_sum_map, map, List.map_map, List.map_map]
  refine congrArg List.sum (List.map_congr_left fun q _ => ?_)
  simp only [Function.comp_apply, Mat3.map_scale, deformation_map,
    ← Law.contraction_map φ _ _ hLaw, ← QuadraturePoint.get_gradients_map]
  rfl

end Elastodynamics
