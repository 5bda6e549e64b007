import Elastodynamics.Proofs.Model.Lines
import Elastodynamics.Proofs.Model.Mapped
/-!
Models over polynomials. A model whose scalars are taken as constant polynomials can be evaluated on
a line of positions, with a variable for the time. The energy and the residual are then polynomials
themselves, and their coefficients of degree one are the residual and the stiffness matrix. This
needs no limits and says as much over finite fields as over infinite ones.
-/
namespace Elastodynamics

open Polynomial (C X eval₂)

variable {K L : Type} [ExactScalar K] [ExactScalar L] {S : Shape}

/-- The line `x + t d` as a vector of polynomials in `t`. -/
noncomputable def Stacked.line (x d : Array K) : Array (Polynomial K) :=
  x.zipWith (fun p v => C p + X * C v) d

/-- A motion whose positions are on the line in the direction `d`, while velocities and
accelerations are constant. -/
noncomputable def Motion.onLine (y : Motion K) (d : Array K) : Motion (Polynomial K) :=
  { y.map C with positions := Stacked.line y.positions d }

theorem Stacked.line_map (ι : K →+* L) (t : L) (x d : Array K) :
    (line x d).map (eval₂ ι t) = along (x.map ι) (d.map ι) t := by
  refine Array.ext_getElem? fun k => ?_
  simp only [line, along, Array.getElem?_map, Array.getElem?_zipWith]
  cases x[k]? with
  | none => rfl
  | some p =>
      cases d[k]? with
      | none => rfl
      | some v =>
          refine congrArg some ?_
          rw [Polynomial.eval₂_add, Polynomial.eval₂_mul, Polynomial.eval₂_C, Polynomial.eval₂_C,
            Polynomial.eval₂_X]

theorem Stacked.size_line {x d : Array K} {n : Nat} (hx : x.size = n) (hd : d.size = n) :
    (line x d).size = n := by
  simp [line, hx, hd]

/-- The motion on the line at a time. -/
theorem Motion.onLine_map (ι : K →+* L) (t : L) (y : Motion K) (d : Array K) :
    (y.onLine d).map (eval₂ ι t) =
      { y.map ι with positions := Stacked.along (y.positions.map ι) (d.map ι) t } := by
  have hConst (x : Array K) : (x.map C).map (eval₂ ι t) = x.map ι := by
    rw [Array.map_map]
    exact congrArg (x.map ·) (funext fun s => Polynomial.eval₂_C ι t)
  rw [onLine, map, Stacked.line_map]
  simp only [map, hConst]

/-- The inertial and the elastic force on a node of an element whose nodes have moved from their
positions in the direction `d` for a time. -/
def Element.forceAlong (e : Element S K) (y : Motion K) (g : Vec3 K) (d : Array K) (t : K)
    (b : Fin S.nodeCount) : Vec3 K :=
  e.inertialForce (y.restrict e.nodes) g b +
    e.elasticForce (e.computeData (moved (Stacked.gather e.nodes y.positions)
      (Stacked.gather e.nodes d) t)) b

/-- These forces have the derivatives of the elastic ones. -/
theorem Element.holds_forceAlong {R : DerivativeRule K} (e : Element S K) (y : Motion K)
    (g : Vec3 K) (d : Array K) (hLaw : ∀ q ∈ e.points, e.properties.law.HasDerivatives R
      e.properties.lame (deformation (Stacked.gather e.nodes y.positions) q))
    (b : Fin S.nodeCount) :
    R.HoldsVec (fun t => e.forceAlong y g d t b)
      (∑ c, ((e.computeData (Stacked.gather e.nodes y.positions)).stiffness.get b c).mulVec
        ((Stacked.gather e.nodes d).get c)) :=
  .const_add _ (e.holds_elasticForce _ hLaw b)

variable [RealOps (Polynomial K)]

/-- Scalars as constant polynomials. -/
noncomputable def Scalar.Hom.constant : Scalar.Hom K (Polynomial K) where
  toFun := C
  map_zero := Polynomial.C_0
  map_one := Polynomial.C_1
  map_add _ _ := Polynomial.C_add
  map_sub _ _ := Polynomial.C_sub
  map_mul _ _ := Polynomial.C_mul
  map_half := half_polynomial.symm

namespace Element

variable (ι : K →+* L) (t : L) {e : Element S K}

/-- Constant polynomials have their values at every time. -/
theorem map_C_map : (e.map C).map (Scalar.Hom.evalAt ι t).toFun = e.map ι := by
  rw [map_map]
  exact congrArg (e.map ·) (funext fun s => Polynomial.eval₂_C ι t)

variable {y : Motion K} {d : Array K} (hSize : y.positions.size = d.size)

include hSize

theorem gather_onLine :
    (Stacked.gather e.nodes (y.onLine d).positions).map (Vec3.map (Scalar.Hom.evalAt ι t).toFun) =
      moved (Stacked.gather e.nodes (y.positions.map ι)) (Stacked.gather e.nodes (d.map ι)) t := by
  have hLine := Stacked.line_map ι t y.positions d
  rw [← Stacked.gather_map, ← Stacked.gather_along _ (by simpa using hSize), ← hLine]
  rfl

variable (hLaw : e.properties.law ≠ .neoHookean)

include hLaw

/-- The energy of an element on a line has the values of the energy at all times. -/
theorem eval₂_energy_onLine : eval₂ ι t
    ((e.map C).computeData (Stacked.gather e.nodes (y.onLine d).positions)).energy =
      ((e.map ι).computeData (moved (Stacked.gather e.nodes (y.positions.map ι))
        (Stacked.gather e.nodes (d.map ι)) t)).energy := by
  have hLaw' : (e.map (C : K → Polynomial K)).properties.law ≠ .neoHookean := hLaw
  have hMap := energy_map (.evalAt ι t) (Stacked.gather e.nodes (y.onLine d).positions) hLaw'
  rw [map_C_map, gather_onLine ι t hSize] at hMap
  exact hMap.symm

/-- When velocities are zero, or there is no damping by stiffness, the residual of an element on a
line has the values of its inertial and elastic forces. -/
theorem get_residual_onLine
    (hStill : (∀ a, (y.restrict e.nodes).velocities.get a = 0) ∨
      e.properties.damping.stiffnessCoefficient = 0) (g : Vec3 K) (b : Fin S.nodeCount) :
    (((e.map C).residual ((e.map C).computeData (Stacked.gather e.nodes (y.onLine d).positions))
      ((y.onLine d).restrict e.nodes) (g.map C)).get b).map (Scalar.Hom.evalAt ι t).toFun =
    (e.map ι).forceAlong (y.map ι) (g.map ι) (d.map ι) t b := by
  have hLaw' : (e.map (C : K → Polynomial K)).properties.law ≠ .neoHookean := hLaw
  have hStill' : (∀ a, ((y.onLine d).restrict e.nodes).velocities.get a = 0) ∨
      (e.map (C : K → Polynomial K)).properties.damping.stiffnessCoefficient = 0 := by
    rcases hStill with hVelocities | hNone
    · left
      intro a
      have hGather : Stacked.gather e.nodes (y.velocities.map C) =
          (Stacked.gather e.nodes y.velocities).map (Vec3.map C) :=
        Stacked.gather_map e.nodes .constant y.velocities
      calc (Stacked.gather e.nodes (y.velocities.map C)).get a
          = ((Stacked.gather e.nodes y.velocities).get a).map C := by rw [hGather, vector_get_map]
        _ = (0 : Vec3 K).map C := congrArg (Vec3.map C) (hVelocities a)
        _ = 0 := Vec3.map_zero .constant
    · exact .inr ((congrArg C hNone).trans Polynomial.C_0)
  have hInertial := inertialForce_map (.evalAt ι t) (e.map C) ((y.onLine d).restrict e.nodes)
    (g.map C) b
  have hElastic := elasticForce_map (.evalAt ι t)
    (Stacked.gather e.nodes (y.onLine d).positions) hLaw' b
  rw [map_C_map, gather_onLine ι t hSize] at hElastic
  rw [map_C_map, ← Motion.restrict_map] at hInertial
  have hVelocities : ((y.onLine d).map (eval₂ ι t)) =
      { y.map ι with positions := Stacked.along (y.positions.map ι) (d.map ι) t } :=
    y.onLine_map ι t d
  have hGravity : (g.map C).map (eval₂ ι t) = g.map ι := by
    ext <;> exact Polynomial.eval₂_C ι t
  rw [get_residual_map _ _ hStill', Vec3.map_add, ← hElastic, ← hInertial]
  show (e.map ι).inertialForce (((y.onLine d).map (eval₂ ι t)).restrict e.nodes)
    ((g.map C).map (eval₂ ι t)) b + _ = _
  rw [hVelocities, hGravity]
  rfl

end Element

namespace TypedModel

variable [Quadrature.Rules K] [Quadrature.Rules (Polynomial K)]

/-- The model with its scalars as constant polynomials. -/
noncomputable def overPolynomials (m : TypedModel K S) : Model (Polynomial K) :=
  .typed (m.map C)

/-- Energy, residual and stiffness matrix of a model as coefficients of polynomials. The energy and
the residual are computed in new states with polynomials instead of scalars, on the line from `x` in
the direction `d`. -/
structure PolynomialDerivatives (m : TypedModel K S) (x d : Array K) : Prop where
  /-- The energy is the polynomial of its values. Without gravity, the coefficient of degree one is
  the product of the residual of the model at rest and the direction. -/
  energy : ∀ E, m.overPolynomials.energyAt (.atRest (Stacked.line x d)) = .ok E →
    (∀ t z, (Model.typed m).energyAt (.atRest (Stacked.along x d t)) = .ok z → E.eval t = z) ∧
    (m.config.gravity = 0 → ∀ r, (Model.typed m).residualAt (.atRest x) = .ok r →
      E.coeff 1 = Stacked.dot r d)
  /-- The residual is the polynomial of its values, and its coefficient of degree one is the
  stiffness matrix applied to the direction. Gravity, velocities and accelerations may be any if
  there is no damping by stiffness; if there is some, velocities are zero. -/
  residual : ∀ y : Motion K, y.Sized (Model.typed m).numDofs → y.positions = x →
    y.velocities = Array.replicate (Model.typed m).numDofs 0 ∨
      (∀ e : Element S K, e ∈ m.elements → e.properties.damping.stiffnessCoefficient = 0) →
    ∀ R, m.overPolynomials.residualAt (y.onLine d) = .ok R → ∀ i p,
    (∀ t r, (Model.typed m).residualAt { y with positions := Stacked.along x d t } = .ok r →
      ((Stacked.node R i).get p).eval t = (Stacked.node r i).get p) ∧
    (∀ A, (Model.typed m).tangentAt y ⟨1, 0, 0⟩ = .ok A → i < m.referencePositions.size →
      ((Stacked.node R i).get p).coeff 1 = (Stacked.node (A.toDense.mulVec d) i).get p)
  /-- Unless polynomials may be rejected as not finite, both are there for every motion. -/
  evaluated : (m.map C).config.RejectsNone → ∀ y : Motion (Polynomial K),
    y.Sized (Model.typed m).numDofs →
    (∃ E, m.overPolynomials.energyAt y = .ok E) ∧ ∃ R, m.overPolynomials.residualAt y = .ok R

variable {m : TypedModel K S} {x d : Array K}

theorem numDofs_overPolynomials (m : TypedModel K S) :
    m.overPolynomials.numDofs = (Model.typed m).numDofs := by
  show 3 * (m.referencePositions.map (Vec3.map C)).size = 3 * m.referencePositions.size
  rw [Array.size_map]

/-! ### Sums over the elements -/

section

variable (ι : K →+* L) (t : L) (hd : d.size = (Model.typed m).numDofs)
  (hLaw : ∀ e : Element S K, e ∈ m.elements → e.properties.law ≠ .neoHookean)

include hd hLaw

/-- The energy on a line, at a time of an extension of the field. -/
theorem eval₂_energyAt_line (hx : x.size = (Model.typed m).numDofs) {E : Polynomial K}
    (h : m.overPolynomials.energyAt (.atRest (Stacked.line x d)) = .ok E) :
    E.eval₂ ι t = (m.elements.toList.map fun e : Element S K =>
      ((e.map ι).computeData (Element.moved (Stacked.gather e.nodes (x.map ι))
        (Stacked.gather e.nodes (d.map ι)) t)).energy).sum := by
  have hSized : (Motion.atRest (Stacked.line x d)).Sized m.overPolynomials.numDofs := by
    rw [numDofs_overPolynomials, ← Stacked.size_line hx hd]
    exact Motion.sized_atRest _
  refine (energyAt_map (.evalAt ι t) hSized h).trans ?_
  show ((m.elements.map (Element.map C)).toList.map _).sum = _
  rw [Array.toList_map, List.map_map]
  refine congrArg List.sum (List.map_congr_left fun e he => ?_)
  exact Element.eval₂_energy_onLine ι t (y := .atRest x) (hx.trans hd.symm)
    (hLaw e (by simpa using he))

/-- The residual on a line, at a time of an extension of the field. -/
theorem WellFormed.node_residualAt_onLine (hm : m.WellFormed) {y : Motion K}
    (hy : y.Sized (Model.typed m).numDofs)
    (hStill : y.velocities = Array.replicate (Model.typed m).numDofs 0 ∨
      (∀ e : Element S K, e ∈ m.elements → e.properties.damping.stiffnessCoefficient = 0))
    {R : Array (Polynomial K)} (h : m.overPolynomials.residualAt (y.onLine d) = .ok R) (i : Nat) :
    (Stacked.node R i).map (eval₂ ι t) = (m.elements.toList.map fun e : Element S K =>
      Stacked.spread e.nodes
        ((e.map ι).forceAlong (y.map ι) (m.config.gravity.map ι) (d.map ι) t) i).sum := by
  have hSized : (y.onLine d).Sized m.overPolynomials.numDofs := by
    rw [numDofs_overPolynomials]
    have hConst : (y.map (C : K → Polynomial K)).Sized (Model.typed m).numDofs := by
      rintro (_ | _ | _)
      · exact Array.size_map.trans (hy .positions)
      · exact Array.size_map.trans (hy .velocities)
      · exact Array.size_map.trans (hy .accelerations)
    exact hConst.set (p := .positions) (Stacked.size_line (hy .positions) hd)
  have hFits : ∀ e ∈ (m.map (C : K → Polynomial K)).elements, ∀ a : Fin S.nodeCount,
      e.nodes.get a < (m.map (C : K → Polynomial K)).referencePositions.size := by
    intro e he a
    obtain ⟨e', he', rfl⟩ := Array.mem_map.mp he
    rw [map, Array.size_map]
    exact hm.nodes_lt he' a
  refine (node_residualAt_map (.evalAt ι t) hFits hSized h i).trans ?_
  show ((m.elements.map (Element.map C)).toList.map _).sum = _
  rw [Array.toList_map, List.map_map]
  refine congrArg List.sum (List.map_congr_left fun e he => ?_)
  have hMem : e ∈ m.elements := by simpa using he
  have hForces := Element.get_residual_onLine ι t ((hy .positions).trans hd.symm) (hLaw e hMem)
    (still_restrict hStill hMem) m.config.gravity
  rw [Function.comp_apply]
  exact congrArg (fun v => Stacked.spread e.nodes v i) (funext hForces)

end

end TypedModel

/-! ### Extensions of the field -/

omit [RealOps (Polynomial K)]

namespace Element

variable (ι : K →+* L) {e : Element S K}

theorem spread_map (e : Element S K) (v : Fin S.nodeCount → Vec3 K) (i : Nat) :
    (Stacked.spread e.nodes v i).map ι = Stacked.spread e.nodes (fun a => (v a).map ι) i := by
  have hSum := Vec3.map_finset_sum (.ofRingHom ι) Finset.univ
    fun a => if e.nodes.get a = i then v a else 0
  refine hSum.trans (Finset.sum_congr rfl fun a _ => ?_)
  show (if e.nodes.get a = i then v a else 0).map ι = if e.nodes.get a = i then (v a).map ι else 0
  split
  · rfl
  · exact Vec3.map_zero (.ofRingHom ι)

variable (hLaw : e.properties.law ≠ .neoHookean)

include hLaw

/-- The work of the elastic forces in an extension of the field. -/
theorem work_map (x d : Array K) :
    ι (∑ b, (e.elasticForce (e.computeData (Stacked.gather e.nodes x)) b).dot
        ((Stacked.gather e.nodes d).get b)) =
      ∑ b, ((e.map ι).elasticForce ((e.map ι).computeData (Stacked.gather e.nodes (x.map ι))) b).dot
        ((Stacked.gather e.nodes (d.map ι)).get b) := by
  have hGather (x : Array K) :
      Stacked.gather e.nodes (x.map ι) = (Stacked.gather e.nodes x).map (Vec3.map ι) :=
    Stacked.gather_map e.nodes (.ofRingHom ι) x
  rw [map_sum]
  refine Finset.sum_congr rfl fun b _ => ?_
  have hForce := elasticForce_map (.ofRingHom ι) (Stacked.gather e.nodes x) hLaw b
  have hDot := Vec3.map_dot (.ofRingHom ι)
    (e.elasticForce (e.computeData (Stacked.gather e.nodes x)) b) ((Stacked.gather e.nodes d).get b)
  rw [← hForce] at hDot
  rw [hGather, hGather, vector_get_map]
  exact hDot

/-- The stiffness matrix applied to a direction, in an extension of the field. -/
theorem stiffness_mulVec_map (x d : Array K) (b : Fin S.nodeCount) :
    (∑ c, ((e.computeData (Stacked.gather e.nodes x)).stiffness.get b c).mulVec
        ((Stacked.gather e.nodes d).get c)).map ι =
      ∑ c, (((e.map ι).computeData (Stacked.gather e.nodes (x.map ι))).stiffness.get b c).mulVec
        ((Stacked.gather e.nodes (d.map ι)).get c) := by
  have hGather (x : Array K) :
      Stacked.gather e.nodes (x.map ι) = (Stacked.gather e.nodes x).map (Vec3.map ι) :=
    Stacked.gather_map e.nodes (.ofRingHom ι) x
  refine (Vec3.map_finset_sum (.ofRingHom ι) _ _).trans (Finset.sum_congr rfl fun c _ => ?_)
  have hBlock := get_stiffness_map (.ofRingHom ι) hLaw (Stacked.gather e.nodes x) b c
  rw [Mat3.map_mulVec, ← hBlock, hGather, hGather, vector_get_map]
  rfl

end Element

namespace TypedModel

variable [Quadrature.Rules K] {m : TypedModel K S} {x d : Array K}

/-- The product of the stiffness matrix and a direction in an extension of the field, where it is
the sum of what the elements give. -/
theorem WellFormed.node_stiffness_mulVec_map (ι : K →+* L) (hm : m.WellFormed)
    (hLaw : ∀ e : Element S K, e ∈ m.elements → e.properties.law ≠ .neoHookean) {y : Motion K}
    {A : Sparse.BlockMatrix K}
    (hA : (Model.typed m).tangentOf y ⟨1, 0, 0⟩ (Model.typed m).makeTangent = (A, .ok ()))
    {i : Nat} (hi : i < m.referencePositions.size) :
    (Stacked.node (A.toDense.mulVec d) i).map ι =
      (m.elements.toList.map fun e : Element S K => Stacked.spread e.nodes (fun b => ∑ c,
        (((e.map ι).computeData (Stacked.gather e.nodes (y.positions.map ι))).stiffness.get b
          c).mulVec ((Stacked.gather e.nodes (d.map ι)).get c)) i).sum := by
  have hSum := Vec3.list_sum_map (.ofRingHom ι) (m.elements.toList.map fun e : Element S K =>
    Stacked.spread e.nodes (fun b => ∑ a,
      ((elementTangent y.positions ⟨1, 0, 0⟩ e).get b a).mulVec
        (Stacked.node d (e.nodes.get a))) i)
  rw [node_mulVec_tangentOf hm hA d hi]
  refine hSum.trans ?_
  rw [List.map_map]
  refine congrArg List.sum (List.map_congr_left fun e he => ?_)
  refine (e.spread_map ι _ i).trans
    (congrArg (fun v => Stacked.spread e.nodes v i) (funext fun b => ?_))
  rw [← e.stiffness_mulVec_map ι (hLaw e (by simpa using he))]
  simp only [elementTangent, Element.get_tangentMatrix_stiffness, Stacked.get_gather e.nodes]

/-! ### Coefficients -/

variable [RealOps (Polynomial K)] [Quadrature.Rules (Polynomial K)]
  (hd : d.size = (Model.typed m).numDofs)
  (hLaw : ∀ e : Element S K, e ∈ m.elements → e.properties.law ≠ .neoHookean)

include hd hLaw

section

variable (hx : x.size = (Model.typed m).numDofs) {E : Polynomial K}
  (hE : m.overPolynomials.energyAt (.atRest (Stacked.line x d)) = .ok E)

include hx hE

/-- The energy on a line is the polynomial of its values. -/
theorem eval_energyAt_line {t z : K}
    (hz : (Model.typed m).energyAt (.atRest (Stacked.along x d t)) = .ok z) : E.eval t = z := by
  have hValue := eval₂_energyAt_line (.id K) t hd hLaw hx hE
  have hSame (x : Array K) : x.map (RingHom.id K) = x := Array.map_id x
  have hElement (e : Element S K) : e.map (RingHom.id K) = e := e.map_id
  simp only [hSame, hElement] at hValue
  exact hValue.trans (energyAt_along hx hd hz).symm

/-- Without gravity, the energy has the work of the residual as coefficient of degree one. -/
theorem WellFormed.coeff_energyAt_line (hm : m.WellFormed) (hGravity : m.config.gravity = 0)
    {r : Array K} (hr : (Model.typed m).residualAt (.atRest x) = .ok r) :
    E.coeff 1 = Stacked.dot r d := by
  obtain ⟨L, hL, ι, hInfinite⟩ := exists_infinite_extension K
  refine coeff_one_of_holds ι (fun t => eval₂_energyAt_line ι t hd hLaw hx hE) ?_
  have hWork : ι (Stacked.dot r d) = (m.elements.toList.map fun e : Element S K =>
      ∑ b, ((e.map ι).elasticForce ((e.map ι).computeData (Stacked.gather e.nodes (x.map ι))) b).dot
        ((Stacked.gather e.nodes (d.map ι)).get b)).sum := by
    rw [hm.dot_residualAt hGravity hx hd hr, map_list_sum, List.map_map]
    refine congrArg List.sum (List.map_congr_left fun e he => ?_)
    exact e.work_map ι (hLaw e (by simpa using he)) x d
  rw [hWork]
  refine DerivativeRule.polynomial.list_sum fun e he => ?_
  exact (e.map ι).holds_energy _ fun q _ =>
    Law.hasDerivatives_of_ne _ _ _ (hLaw e (by simpa using he))

end

section

variable (hm : m.WellFormed) {y : Motion K} (hy : y.Sized (Model.typed m).numDofs)
  (hStill : y.velocities = Array.replicate (Model.typed m).numDofs 0 ∨
    (∀ e : Element S K, e ∈ m.elements → e.properties.damping.stiffnessCoefficient = 0))
  {R : Array (Polynomial K)} (hR : m.overPolynomials.residualAt (y.onLine d) = .ok R)

include hm hy hStill hR

/-- The residual on a line is the polynomial of its values. -/
theorem WellFormed.eval_residualAt_onLine {t : K} {r : Array K}
    (hr : (Model.typed m).residualAt { y with positions := Stacked.along y.positions d t } = .ok r)
    (i : Nat) (p : Fin 3) : ((Stacked.node R i).get p).eval t = (Stacked.node r i).get p := by
  have hNode : (Stacked.node R i).map (eval₂ (.id K) t) = Stacked.node r i := by
    rw [hm.node_residualAt_onLine (.id K) t hd hLaw hy hStill hR i,
      hm.node_residualAt_along (hy .positions) hd hy hr i]
    refine congrArg List.sum (List.map_congr_left fun e he => ?_)
    have hElement : e.map (RingHom.id K) = e := e.map_id
    have hMotion : y.map (RingHom.id K) = y := y.map_id
    have hDirection : d.map (RingHom.id K) = d := Array.map_id d
    rw [hElement, hMotion, hDirection]
    refine congrArg (fun v => Stacked.spread e.nodes v i) (funext fun b => ?_)
    exact (e.get_residual_map (.ofRingHom (.id K))
      (still_restrict hStill (by simpa using he)) _ b).symm
  exact (Vec3.get_map _ _ p).symm.trans (congrArg (fun v => v.get p) hNode)

/-- The residual has the stiffness matrix, applied to the direction, as coefficient of degree
one. -/
theorem WellFormed.coeff_residualAt_onLine {A : Sparse.BlockMatrix K}
    (hA : (Model.typed m).tangentAt y ⟨1, 0, 0⟩ = .ok A) {i : Nat}
    (hi : i < m.referencePositions.size) (p : Fin 3) :
    ((Stacked.node R i).get p).coeff 1 = (Stacked.node (A.toDense.mulVec d) i).get p := by
  obtain ⟨L, hL, ι, hInfinite⟩ := exists_infinite_extension K
  have hTangent := (Model.tangentAt_eq_ok_iff (.typed hm) hy).mp hA
  have hDerivative : DerivativeRule.polynomial.HoldsVec
      (fun t => (m.elements.toList.map fun e : Element S K => Stacked.spread e.nodes
        ((e.map ι).forceAlong (y.map ι) (m.config.gravity.map ι) (d.map ι) t) i).sum)
      ((Stacked.node (A.toDense.mulVec d) i).map ι) := by
    rw [hm.node_stiffness_mulVec_map ι hLaw hTangent hi]
    refine .list_sum fun e he => Stacked.holds_spread _ (fun b => ?_) i
    exact (e.map ι).holds_forceAlong _ _ _ (fun q _ =>
      Law.hasDerivatives_of_ne _ _ _ (hLaw e (by simpa using he))) b
  have hComponent := hDerivative p
  simp only [← hm.node_residualAt_onLine ι _ hd hLaw hy hStill hR i, Vec3.get_map] at hComponent
  exact coeff_one_of_holds ι (fun t => rfl) hComponent

end

/-- If no material is Neo-Hookean, residual and stiffness matrix are coefficients of polynomials. -/
theorem WellFormed.polynomialDerivatives (hm : m.WellFormed)
    (hx : x.size = (Model.typed m).numDofs) : m.PolynomialDerivatives x d where
  energy E hE := ⟨fun t z hz => eval_energyAt_line hd hLaw hx hE hz,
    fun hGravity r hr => hm.coeff_energyAt_line hd hLaw hx hE hGravity hr⟩
  residual y hy hPositions hStill R hR i p := by
    subst hPositions
    exact ⟨fun t r hr => hm.eval_residualAt_onLine hd hLaw hy hStill hR hr i p,
      fun A hA hi => hm.coeff_residualAt_onLine hd hLaw hy hStill hR hA hi p⟩
  evaluated hNone y hy := by
    have hUnchecked : m.overPolynomials.Unchecked := .typed hNone
    have hSized : y.Sized m.overPolynomials.numDofs := m.numDofs_overPolynomials ▸ hy
    obtain ⟨E, hEnergy⟩ := hUnchecked.energyOf y
    obtain ⟨R, hResidual⟩ :=
      hUnchecked.residualOf y (Array.replicate m.overPolynomials.numDofs 0)
    exact ⟨⟨E, (Model.energyAt_eq hSized).trans hEnergy⟩,
      ⟨R, (Model.residualAt_eq_ok_iff hSized).mpr hResidual⟩⟩

end TypedModel

end Elastodynamics
