import Elastodynamics.Proofs.Element.Forces
import Elastodynamics.Proofs.Element.Objectivity
import Elastodynamics.Proofs.Model.BlockDiagonal
import Elastodynamics.Proofs.Model.Reports
/-!
Models whose nodes are rotated and translated together. Every body of a model is moved in the same
way as the whole, so what holds of the elements holds of models of any depth: the energy is kept,
the residual at rest is rotated node by node, and the blocks of the stiffness matrix are those of
the turned frame.
-/
namespace Elastodynamics

open Sparse

/-! ### Nodes of pieces -/

namespace Motion

variable {α : Type} [Scalar α] (x : Motion α) (p : Partition) {k : Nat}

theorem node_take {i : Nat} (h : i < k) :
    Stacked.node ((x.take (3 * k)).get p) i = Stacked.node (x.get p) i := by
  rw [get_take]
  exact Stacked.node_extract_of_lt h

theorem node_drop (i : Nat) :
    Stacked.node ((x.drop (3 * k)).get p) i = Stacked.node (x.get p) (k + i) := by
  rw [get_drop]
  exact Stacked.node_extract _ _ _

end Motion

variable {K : Type} [ExactScalar K]

/-! ### Elements of any kind -/

section

variable [ElementFamily K]

omit [ExactScalar K] in
/-- Which elements a model has, and with which settings, does not depend on the motion. -/
theorem Model.map_sites_eq {β : Type} {f : Site K → β}
    (hf : ∀ {κ : Kind K} (e : (kind κ).Element) (config : Config K) (x y : Motion K),
      f ⟨κ, e, config, y⟩ = f ⟨κ, e, config, x⟩) (m : Model K) (x y : Motion K) :
    (m.sites y).map f = (m.sites x).map f := by
  induction m generalizing x y with
  | typed m =>
      rw [sites, sites, List.map_map, List.map_map]
      apply List.map_congr_left
      intro e _
      exact hf e m.config x y
  | composite id P bodies ih =>
      rw [sites, sites]
      induction bodies generalizing x y with
      | nil => rw [sitesOf, sitesOf]
      | cons b bodies ihBodies =>
          have hRest := ihBodies (fun b hb => ih b (List.mem_cons_of_mem _ hb))
            (x.drop b.numDofs) (y.drop b.numDofs)
          rw [sitesOf, sitesOf, List.map_append, List.map_append, hRest,
            ih b List.mem_cons_self (x.take b.numDofs)]

/-- The energy of a model of elements depends on the energies of the elements only. -/
theorem TypedModel.addEnergies_congr {κ : Kind K} {config : Config K} {i : Nat}
    {l l' : List ((kind κ).Element × (kind κ).Data)} {z : K}
    (h : l'.map (fun p => (kind κ).energy p.1 p.2) = l.map fun p => (kind κ).energy p.1 p.2) :
    addEnergies config i l' z = addEnergies config i l z := by
  induction l generalizing l' i z with
  | nil => rw [List.map_eq_nil_iff.mp h]
  | cons p l ih =>
      cases l' with
      | nil => cases h
      | cons p' l' =>
          obtain ⟨hEnergy, hRest⟩ := List.cons.inj h
          simp only [addEnergies, hEnergy, ih hRest]

/-- The energy of a model of any kind depends on the energies of its elements only, and so does its
failure. -/
theorem Model.energyOf_congr {m : Model K} {x y : Motion K}
    (h : (m.sites y).map Site.energy = (m.sites x).map Site.energy) :
    m.energyOf y = m.energyOf x := by
  induction m generalizing x y with
  | typed m =>
      rw [energyOf, energyOf]
      apply TypedModel.addEnergies_congr
      rw [sites, sites, List.map_map, List.map_map] at h
      rw [TypedModel.elementsAt, TypedModel.elementsAt, List.map_map, List.map_map]
      exact h
  | composite id P bodies ih =>
      rw [energyOf, energyOf]
      rw [sites, sites] at h
      generalize 0 = first
      generalize (0 : K) = z
      induction bodies generalizing x y first z with
      | nil => rw [bodyEnergiesOf, bodyEnergiesOf]
      | cons b bodies ihBodies =>
          rw [sitesOf, sitesOf, List.map_append, List.map_append] at h
          have hLength : ((b.sites (y.take b.numDofs)).map Site.energy).length =
              ((b.sites (x.take b.numDofs)).map Site.energy).length := by
            rw [List.length_map, List.length_map, length_sites, length_sites]
          obtain ⟨hHead, hTail⟩ := List.append_inj h hLength
          have hRest := ihBodies (fun b hb => ih b (List.mem_cons_of_mem _ hb)) hTail
          rw [bodyEnergiesOf, bodyEnergiesOf, ih b List.mem_cons_self hHead]
          simp only [hRest]

namespace Model

theorem size_bodyResidualsOf {bodies : List (Model K)}
    (hBodies : ∀ b ∈ bodies, ∀ {x : Motion K} {r z : Array K}, r.size = b.numDofs →
      b.residualOf x r = (z, .ok ()) → z.size = b.numDofs)
    {first : Nat} {x : Motion K} {r z : Array K} (hr : r.size = 3 * totalNodes bodies)
    (h : bodyResidualsOf first bodies x r = (z, .ok ())) : z.size = 3 * totalNodes bodies := by
  induction bodies generalizing first x r z with
  | nil =>
      rw [bodyResidualsOf] at h
      cases h
      exact hr
  | cons b bodies ih =>
      obtain ⟨head, tail, hHead, hTail, rfl⟩ := bodyResidualsOf_cons_eq_ok h
      obtain ⟨hFirst, hRest⟩ := size_extract_of_cons hr
      have hHeadSize := hBodies b List.mem_cons_self hFirst hHead
      have hTailSize := ih (fun b hb => hBodies b (List.mem_cons_of_mem _ hb)) hRest hTail
      rw [Array.size_append, hHeadSize, hTailSize, totalNodes, numDofs, Nat.mul_add]

/-- A complete residual is as long as the vector that it is written to. -/
theorem size_residualOf {m : Model K} (hm : m.WellFormed) {x : Motion K} {r z : Array K}
    (hr : r.size = m.numDofs) (h : m.residualOf x r = (z, .ok ())) : z.size = m.numDofs := by
  induction m generalizing x r z with
  | typed m => exact (TypedModel.node_residualOf hm.of_typed hr h).1
  | composite id P bodies ih =>
      rw [numDofs, numNodes] at hr ⊢
      rw [residualOf] at h
      exact size_bodyResidualsOf (fun b hb => ih b hb (hm.body hb)) hr h

end Model

/-- That the first `n` nodes, to which the given elements belong, do not move, and that there is no
gravity. -/
structure Still (n : Nat) (sites : List (Site K)) (x : Motion K) : Prop where
  velocity : ∀ i < n, Stacked.node x.velocities i = 0
  acceleration : ∀ i < n, Stacked.node x.accelerations i = 0
  gravity : ∀ s ∈ sites, s.config.gravity = 0

namespace Still

variable {x : Motion K} {b : Model K} {bodies : List (Model K)}

theorem head (h : Still (Model.totalNodes (b :: bodies)) (Model.sitesOf (b :: bodies) x) x) :
    Still b.numNodes (b.sites (x.take b.numDofs)) (x.take b.numDofs) where
  velocity i hi := (x.node_take .velocities hi).trans (h.velocity i (Nat.lt_add_right _ hi))
  acceleration i hi :=
    (x.node_take .accelerations hi).trans (h.acceleration i (Nat.lt_add_right _ hi))
  gravity s hs := h.gravity s (Model.mem_sitesOf_cons.mpr (.inl hs))

theorem tail (h : Still (Model.totalNodes (b :: bodies)) (Model.sitesOf (b :: bodies) x) x) :
    Still (Model.totalNodes bodies) (Model.sitesOf bodies (x.drop b.numDofs))
      (x.drop b.numDofs) where
  velocity i hi :=
    (x.node_drop .velocities i).trans (h.velocity _ (Nat.add_lt_add_left hi _))
  acceleration i hi :=
    (x.node_drop .accelerations i).trans (h.acceleration _ (Nat.add_lt_add_left hi _))
  gravity s hs := h.gravity s (Model.mem_sitesOf_cons.mpr (.inr hs))

end Still

end

/-! ### Rigid motions -/

variable [Quadrature.Rules K]

/-- The element of a site as the solid element that it is. -/
def Site.solid (s : Site K) : Element s.κ K := s.element

/-- That the first `n` nodes, to which the given elements belong, are rotated by `R` and translated
by `c` from one motion to another, and that the materials of the elements are objective. -/
structure Rigid (R : Mat3 K) (c : Vec3 K) (n : Nat) (sites : List (Site K)) (x y : Motion K) :
    Prop where
  rotation : R.IsRotation
  law : ∀ s ∈ sites, s.solid.properties.law ≠ .linearElastic
  node : ∀ i < n, Stacked.node y.positions i = R.mulVec (Stacked.node x.positions i) + c

namespace Rigid

variable {R : Mat3 K} {c : Vec3 K} {x y : Motion K} {b : Model K} {bodies : List (Model K)}

/-- The first of several bodies is moved rigidly. -/
theorem head
    (h : Rigid R c (Model.totalNodes (b :: bodies)) (Model.sitesOf (b :: bodies) x) x y) :
    Rigid R c b.numNodes (b.sites (x.take b.numDofs)) (x.take b.numDofs) (y.take b.numDofs) where
  rotation := h.rotation
  law s hs := h.law s (Model.mem_sitesOf_cons.mpr (.inl hs))
  node i hi := by
    have hLt : i < Model.totalNodes (b :: bodies) := Nat.lt_add_right _ hi
    have hPiece (z : Motion K) : Stacked.node (z.take b.numDofs).positions i =
        Stacked.node z.positions i := z.node_take .positions hi
    rw [hPiece, hPiece, h.node i hLt]

/-- So are the bodies after it. -/
theorem tail
    (h : Rigid R c (Model.totalNodes (b :: bodies)) (Model.sitesOf (b :: bodies) x) x y) :
    Rigid R c (Model.totalNodes bodies) (Model.sitesOf bodies (x.drop b.numDofs))
      (x.drop b.numDofs) (y.drop b.numDofs) where
  rotation := h.rotation
  law s hs := h.law s (Model.mem_sitesOf_cons.mpr (.inr hs))
  node i hi := by
    have hLt : b.numNodes + i < Model.totalNodes (b :: bodies) := Nat.add_lt_add_left hi _
    have hPiece (z : Motion K) : Stacked.node (z.drop b.numDofs).positions i =
        Stacked.node z.positions (b.numNodes + i) := z.node_drop .positions i
    rw [hPiece, hPiece, h.node _ hLt]

variable {S : Shape} {m : TypedModel K S}

/-- The nodes of every element are moved rigidly. -/
theorem get_gather (hm : m.WellFormed)
    (h : Rigid R c (Model.typed m).numNodes ((Model.typed m).sites x) x y)
    {e : Element S K} (he : e ∈ m.elements) (a : Fin S.nodeCount) :
    (Stacked.gather e.nodes y.positions).get a =
      R.mulVec ((Stacked.gather e.nodes x.positions).get a) + c := by
  rw [Stacked.get_gather, Stacked.get_gather]
  exact h.node _ (hm.nodes_lt he a)

theorem law_element (h : Rigid R c (Model.typed m).numNodes ((Model.typed m).sites x) x y)
    {e : Element S K} (he : e ∈ m.elements) : e.properties.law ≠ .linearElastic :=
  h.law _ (Model.mem_sites_typed he x)

variable {m : Model K} {β : Type} {f : Site K → β}

/-- What does not see that the nodes of an element are moved rigidly is the same for all elements of
a model before and after. -/
theorem map_sites
    (hf : ∀ {S : Shape} {e : Element S K} (config : Config K) {x y : Motion K}, e.Constructed →
      e.properties.law ≠ .linearElastic →
      (∀ a, (Stacked.gather e.nodes y.positions).get a =
        R.mulVec ((Stacked.gather e.nodes x.positions).get a) + c) →
      f ⟨S, e, config, y⟩ = f ⟨S, e, config, x⟩)
    (hm : m.WellFormed) (h : Rigid R c m.numNodes (m.sites x) x y) :
    (m.sites y).map f = (m.sites x).map f := by
  induction m generalizing x y with
  | typed m =>
      rw [Model.sites, Model.sites, List.map_map, List.map_map]
      apply List.map_congr_left
      intro e he
      have hMem : e ∈ m.elements := by simpa using he
      exact hf m.config (hm.of_typed.constructed_element hMem) (h.law_element hMem)
        (h.get_gather hm.of_typed hMem)
  | composite id P bodies ih =>
      have hBodies : ∀ b ∈ bodies, b.WellFormed := fun b hb => hm.body hb
      rw [Model.numNodes, Model.sites] at h
      rw [Model.sites, Model.sites]
      clear hm
      induction bodies generalizing x y with
      | nil => rw [Model.sitesOf, Model.sitesOf]
      | cons b bodies ihBodies =>
          have hHead := ih b List.mem_cons_self (hBodies b List.mem_cons_self) h.head
          have hTail := ihBodies (fun b hb => ih b (List.mem_cons_of_mem _ hb)) h.tail
            fun b hb => hBodies b (List.mem_cons_of_mem _ hb)
          rw [Model.sitesOf, Model.sitesOf, List.map_append, List.map_append, hHead, hTail]

end Rigid

/-! ### Energies -/

namespace Rigid

variable {R : Mat3 K} {c : Vec3 K} {x y : Motion K} {m : Model K}

/-- A rigid motion keeps the energy. -/
theorem energyOf (hm : m.WellFormed) (h : Rigid R c m.numNodes (m.sites x) x y) :
    m.energyOf y = m.energyOf x := by
  apply Model.energyOf_congr
  exact h.map_sites (fun _ _ _ he hLaw hMoved => he.energy_rotate hMoved h.rotation hLaw) hm

end Rigid

/-! ### Residuals -/

/-- The residual of a model without motion and gravity is the sum of the elastic forces. -/
theorem Still.node_residualOf {S : Shape} {m : TypedModel K S} {x : Motion K} (hm : m.WellFormed)
    (h : Still (Model.typed m).numNodes ((Model.typed m).sites x) x) {r z : Array K}
    (hr : r.size = (Model.typed m).numDofs)
    (hResidual : (Model.typed m).residualOf x r = (z, .ok ())) (i : Nat) :
    Stacked.node z i = (m.elements.toList.map fun e : Element S K => Stacked.spread e.nodes
      (fun b => e.elasticForce (e.computeData (Stacked.gather e.nodes x.positions)) b) i).sum := by
  rw [(TypedModel.node_residualOf_solid hm hr hResidual).2]
  apply congrArg List.sum
  apply List.map_congr_left
  intro e he
  have hMem : e ∈ m.elements := by simpa using he
  have hGravity : m.config.gravity = 0 := h.gravity _ (Model.mem_sites_typed hMem x)
  let data := Element.computeData e (Stacked.gather (Element.nodes e) x.positions)
  have hForces : (Element.residual e data (x.restrict (Element.nodes e)) m.config.gravity).get =
      Element.elasticForce e data := by
    funext b
    rw [hGravity]
    apply (hm.constructed_element hMem).get_residual_atRest
    · exact fun a => (Stacked.get_gather _ _ a).trans (h.velocity _ (hm.nodes_lt hMem a))
    · exact fun a => (Stacked.get_gather _ _ a).trans (h.acceleration _ (hm.nodes_lt hMem a))
  rw [hForces]

namespace Rigid

variable {R : Mat3 K} {c : Vec3 K} {x y : Motion K}

/-- At rest and without gravity, a rigid motion rotates the residual of a model of elements. -/
theorem node_residualOf_typed {S : Shape} {m : TypedModel K S} (hm : m.WellFormed)
    (h : Rigid R c (Model.typed m).numNodes ((Model.typed m).sites x) x y)
    (hx : Still (Model.typed m).numNodes ((Model.typed m).sites x) x)
    (hy : Still (Model.typed m).numNodes ((Model.typed m).sites y) y) {r r' z z' : Array K}
    (hr : r.size = (Model.typed m).numDofs) (hr' : r'.size = (Model.typed m).numDofs)
    (hz : (Model.typed m).residualOf x r = (z, .ok ()))
    (hz' : (Model.typed m).residualOf y r' = (z', .ok ())) (i : Nat) :
    Stacked.node z' i = R.mulVec (Stacked.node z i) := by
  rw [hx.node_residualOf hm hr hz, hy.node_residualOf hm hr' hz', Mat3.mulVec_list_sum,
    List.map_map]
  apply congrArg List.sum
  apply List.map_congr_left
  intro e he
  have hMem : e ∈ m.elements := by simpa using he
  let data (z : Motion K) := Element.computeData e (Stacked.gather (Element.nodes e) z.positions)
  have hForces : Element.elasticForce e (data y) = fun b =>
      R.mulVec (Element.elasticForce e (data x) b) := by
    funext b
    exact (hm.constructed_element hMem).elasticForce_rotate (h.get_gather hm hMem) h.rotation
      (h.law_element hMem) b
  rw [hForces, Function.comp_apply, Stacked.spread_mulVec]

/-- That rigid motions rotate the residual of a model at rest and without gravity. -/
def RotatesResidual (R : Mat3 K) (c : Vec3 K) (m : Model K) : Prop :=
  ∀ {x y : Motion K} {r r' z z' : Array K}, Rigid R c m.numNodes (m.sites x) x y →
    Still m.numNodes (m.sites x) x → Still m.numNodes (m.sites y) y →
    r.size = m.numDofs → r'.size = m.numDofs →
    m.residualOf x r = (z, .ok ()) → m.residualOf y r' = (z', .ok ()) →
    ∀ i < m.numNodes, Stacked.node z' i = R.mulVec (Stacked.node z i)

/-- The residuals of bodies are rotated one by one. -/
theorem node_bodyResidualsOf {bodies : List (Model K)} (hm : ∀ b ∈ bodies, b.WellFormed)
    (hBodies : ∀ b ∈ bodies, RotatesResidual R c b) {first : Nat} {r r' z z' : Array K}
    (h : Rigid R c (Model.totalNodes bodies) (Model.sitesOf bodies x) x y)
    (hx : Still (Model.totalNodes bodies) (Model.sitesOf bodies x) x)
    (hy : Still (Model.totalNodes bodies) (Model.sitesOf bodies y) y)
    (hr : r.size = 3 * Model.totalNodes bodies) (hr' : r'.size = 3 * Model.totalNodes bodies)
    (hz : Model.bodyResidualsOf first bodies x r = (z, .ok ()))
    (hz' : Model.bodyResidualsOf first bodies y r' = (z', .ok ())) :
    ∀ i < Model.totalNodes bodies, Stacked.node z' i = R.mulVec (Stacked.node z i) := by
  induction bodies generalizing x y r r' z z' first with
  | nil =>
      intro i hi
      cases hi
  | cons b bodies ih =>
      obtain ⟨head, tail, hHead, hTail, rfl⟩ := Model.bodyResidualsOf_cons_eq_ok hz
      obtain ⟨head', tail', hHead', hTail', rfl⟩ := Model.bodyResidualsOf_cons_eq_ok hz'
      obtain ⟨hFirst, hRest⟩ := Model.size_extract_of_cons hr
      obtain ⟨hFirst', hRest'⟩ := Model.size_extract_of_cons hr'
      have hBody := hm b List.mem_cons_self
      have hSize : head.size = b.numDofs := Model.size_residualOf hBody hFirst hHead
      have hSize' : head'.size = b.numDofs := Model.size_residualOf hBody hFirst' hHead'
      intro i hi
      -- the nodes of the first body come before those of the others
      by_cases hInside : i < b.numNodes
      · rw [Stacked.node_append_of_lt hSize' hInside, Stacked.node_append_of_lt hSize hInside]
        exact hBodies b List.mem_cons_self h.head hx.head hy.head hFirst hFirst' hHead hHead' i
          hInside
      · obtain ⟨j, rfl⟩ := Nat.exists_eq_add_of_le (Nat.le_of_not_lt hInside)
        rw [Stacked.node_append hSize', Stacked.node_append hSize]
        exact ih (fun b hb => hm b (List.mem_cons_of_mem _ hb))
          (fun b hb => hBodies b (List.mem_cons_of_mem _ hb)) h.tail hx.tail hy.tail hRest hRest'
          hTail hTail' j (Nat.lt_of_add_lt_add_left hi)

/-- At rest and without gravity, a rigid motion rotates the residual of every model. -/
theorem rotatesResidual {m : Model K} (hm : m.WellFormed) : RotatesResidual R c m := by
  induction m with
  | typed m =>
      intro x y r r' z z' h hx hy hr hr' hz hz' i _
      exact h.node_residualOf_typed hm.of_typed hx hy hr hr' hz hz' i
  | composite id P bodies ih =>
      intro x y r r' z z' h hx hy hr hr' hz hz'
      rw [Model.numDofs, Model.numNodes] at hr hr'
      rw [Model.numNodes, Model.sites] at h hx hy
      rw [Model.residualOf] at hz hz'
      exact node_bodyResidualsOf (fun b hb => hm.body hb) (fun b hb => ih b hb (hm.body hb))
        h hx hy hr hr' hz hz'

end Rigid

/-! ### Stiffness matrices -/

/-- That the blocks of a matrix are those of another one in a turned frame. -/
def Sparse.BlockMatrix.Turned (R : Mat3 K) (A B : BlockMatrix K) : Prop :=
  ∀ i j, B.block i j = Mat3.turned R (A.block i j)

omit [Quadrature.Rules K] in
/-- Matrices along the diagonal are turned one by one. -/
theorem Sparse.BlockMatrix.diagonalSum_turned {R : Mat3 K} {first : Nat}
    {matrices matrices' : List (Nat × BlockMatrix K)}
    (h : List.Forall₂ (fun p q => q.1 = p.1 ∧ Turned R p.2 q.2) matrices matrices') (i j : Nat) :
    diagonalSum first matrices' i j = Mat3.turned R (diagonalSum first matrices i j) := by
  induction h generalizing first with
  | nil => exact (Mat3.turned_zero R).symm
  | @cons p q matrices matrices' hHead hTail ih =>
      obtain ⟨n, A⟩ := p
      obtain ⟨n', B⟩ := q
      obtain ⟨rfl, hBlock⟩ := hHead
      have hMoved : movedBlock first B i j = Mat3.turned R (movedBlock first A i j) := by
        rw [movedBlock, movedBlock, hBlock, Mat3.turned_ite]
      rw [diagonalSum, diagonalSum, ih, hMoved, Mat3.turned_add]

namespace Rigid

variable {R : Mat3 K} {c : Vec3 K} {x y : Motion K} {A B : BlockMatrix K}

/-- A rigid motion turns the stiffness matrix of a model of elements. -/
theorem turned_tangentOf_typed {S : Shape} {m : TypedModel K S} (hm : m.WellFormed)
    (h : Rigid R c (Model.typed m).numNodes ((Model.typed m).sites x) x y)
    (hA : (Model.typed m).tangentOf x ⟨1, 0, 0⟩ (Model.typed m).makeTangent = (A, .ok ()))
    (hB : (Model.typed m).tangentOf y ⟨1, 0, 0⟩ (Model.typed m).makeTangent = (B, .ok ())) :
    BlockMatrix.Turned R A B := by
  intro i j
  rw [TypedModel.block_tangentOf hm hA, TypedModel.block_tangentOf hm hB, Model.makeTangent,
    BlockMatrix.block_ofPattern, zero_add, zero_add, Mat3.turned_list_sum, List.map_map]
  apply congrArg List.sum
  apply List.map_congr_left
  intro e he
  have hMem : e ∈ m.elements := by simpa using he
  apply Dense.scattered_turned
  intro a b
  rw [TypedModel.elementTangent, TypedModel.elementTangent, Element.get_tangentMatrix_stiffness,
    Element.get_tangentMatrix_stiffness]
  exact (hm.constructed_element hMem).stiffness_rotate (h.get_gather hm hMem) h.rotation
    (h.law_element hMem) a b

/-- That rigid motions turn the stiffness matrix of a model. -/
def TurnsStiffness (R : Mat3 K) (c : Vec3 K) (m : Model K) : Prop :=
  ∀ {x y : Motion K} {A B : BlockMatrix K}, Rigid R c m.numNodes (m.sites x) x y →
    m.tangentOf x ⟨1, 0, 0⟩ m.makeTangent = (A, .ok ()) →
    m.tangentOf y ⟨1, 0, 0⟩ m.makeTangent = (B, .ok ()) → BlockMatrix.Turned R A B

/-- The stiffness matrices of bodies are turned one by one. -/
theorem turned_bodyTangentsOf {bodies : List (Model K)}
    (hBodies : ∀ b ∈ bodies, TurnsStiffness R c b) {first : Nat}
    {matrices matrices' : List (Nat × BlockMatrix K)}
    (h : Rigid R c (Model.totalNodes bodies) (Model.sitesOf bodies x) x y)
    (hA : Model.bodyTangentsOf first bodies x ⟨1, 0, 0⟩ = .ok matrices)
    (hB : Model.bodyTangentsOf first bodies y ⟨1, 0, 0⟩ = .ok matrices') :
    List.Forall₂ (fun p q => q.1 = p.1 ∧ BlockMatrix.Turned R p.2 q.2) matrices matrices' := by
  induction bodies generalizing x y first matrices matrices' with
  | nil =>
      rw [Model.bodyTangentsOf] at hA hB
      cases hA
      cases hB
      exact .nil
  | cons b bodies ih =>
      obtain ⟨A, rest, hHead, hTail, rfl⟩ := Model.bodyTangentsOf_cons_eq_ok hA
      obtain ⟨B, rest', hHead', hTail', rfl⟩ := Model.bodyTangentsOf_cons_eq_ok hB
      have hBody := hBodies b List.mem_cons_self h.head hHead hHead'
      have hRest := ih (fun b hb => hBodies b (List.mem_cons_of_mem _ hb)) h.tail hTail hTail'
      exact .cons ⟨rfl, hBody⟩ hRest

/-- A rigid motion turns the stiffness matrix of every model. -/
theorem turnsStiffness {m : Model K} (hm : m.WellFormed) : TurnsStiffness R c m := by
  induction m with
  | typed m =>
      intro x y A B h hA hB
      exact h.turned_tangentOf_typed hm.of_typed hA hB
  | composite id P bodies ih =>
      intro x y A B h hA hB i j
      obtain ⟨matrices, hMatrices, hAdd⟩ := Model.tangentOf_composite_eq_ok hA
      obtain ⟨matrices', hMatrices', hAdd'⟩ := Model.tangentOf_composite_eq_ok hB
      -- only the symmetric parts of blocks on the diagonal are added, and nothing is lost by that
      have hSymmetric := Model.hasSymmetricDiagonal_bodyTangentsOf hMatrices
      have hSymmetric' := Model.hasSymmetricDiagonal_bodyTangentsOf hMatrices'
      rw [Model.numNodes, Model.sites] at h
      have hTurned := turned_bodyTangentsOf (fun b hb => ih b hb (hm.body hb)) h hMatrices
        hMatrices'
      rw [Model.block_addBodies hSymmetric hAdd, Model.block_addBodies hSymmetric' hAdd',
        Model.makeTangent, BlockMatrix.block_ofPattern, zero_add, zero_add,
        BlockMatrix.diagonalSum_turned hTurned]

end Rigid

end Elastodynamics
