import Elastodynamics.Proofs.Element.Mapped
import Elastodynamics.Proofs.Evaluation
import Elastodynamics.Proofs.Model.Sums
/-!
Models over another scalar type. What a model computes for a motion is mapped to sums over exact
scalars, element by element, by every map that respects the field operations.
-/
namespace Elastodynamics

section

variable {α β : Type}

def Config.map (f : α → β) (c : Config α) : Config β where
  gravity := c.gravity.map f
  checkNumerics := c.checkNumerics
  parallelElementData := c.parallelElementData

/-- The model of solid elements with the same nodes, and all scalars in its data mapped. -/
def TypedModel.map [Scalar α] [Scalar β] [Quadrature.Rules α] [Quadrature.Rules β] {S : Shape}
    (f : α → β) (m : TypedModel α S) : TypedModel β S where
  elements := m.elements.map (Element.map f)
  referencePositions := m.referencePositions.map (Vec3.map f)
  pattern := m.pattern
  config := m.config.map f
  systemId := m.systemId

def Motion.map (f : α → β) (x : Motion α) : Motion β where
  positions := x.positions.map f
  velocities := x.velocities.map f
  accelerations := x.accelerations.map f

theorem Motion.map_id (x : Motion α) : x.map id = x := by
  rw [map, Array.map_id, Array.map_id, Array.map_id]

end

variable {α L : Type} [Scalar α] [ExactScalar L] (φ : Scalar.Hom α L)

/-! ### Stacked vectors -/

theorem Stacked.node_map {β : Type} [Scalar β] (φ : Scalar.Hom α β) (x : Array α) (i : Nat) :
    node (x.map φ.toFun) i = (node x i).map φ.toFun := by
  refine Vec3.ext_get fun p => ?_
  rw [get_node, Vec3.get_map, get_node, Array.getElem?_map]
  cases x[3 * i + p.val]? with
  | none => exact φ.map_zero.symm
  | some s => rfl

theorem Stacked.addNode_map (x : Array α) (i : Nat) (v : Vec3 α) :
    (addNode x i v).map φ.toFun = addNode (x.map φ.toFun) i (v.map φ.toFun) := by
  have hModify (k : Nat) (s : α) (y : Array α) : (y.modify k (· + s)).map φ.toFun =
      (y.map φ.toFun).modify k (· + φ.toFun s) := by
    refine Array.ext_getElem? fun j => ?_
    rw [Array.getElem?_map, Array.getElem?_modify, Array.getElem?_modify, Array.getElem?_map]
    split
    · simp only [Option.map_map, Function.comp_def, φ.map_add]
    · rfl
  have hFold (l : List (Fin 3)) (y : Array α) :
      (l.foldl (fun x p => x.modify (3 * i + p.val) (· + v.get p)) y).map φ.toFun =
        l.foldl (fun x p => x.modify (3 * i + p.val) (· + (v.map φ.toFun).get p))
          (y.map φ.toFun) := by
    induction l generalizing y with
    | nil => rfl
    | cons p l ih => rw [List.foldl_cons, ih, hModify, ← Vec3.get_map φ.toFun,
        List.foldl_cons]
  exact hFold _ x

namespace Stacked

variable {n : Nat} (nodes : Vector Nat n)

theorem gather_map {β : Type} [Scalar β] (φ : Scalar.Hom α β) (x : Array α) :
    gather nodes (x.map φ.toFun) = (gather nodes x).map (Vec3.map φ.toFun) := by
  refine vector_ext_get fun a => ?_
  rw [gather, gather, vector_get_map, vector_get_map, vector_get_map, node_map]

theorem scatter_map (v : Vector (Vec3 α) n) (x : Array α) : (scatter nodes v x).map φ.toFun =
    scatter nodes (v.map (Vec3.map φ.toFun)) (x.map φ.toFun) := by
  have hFold (l : List (Nat × Vec3 α)) (y : Array α) :
      (l.foldl (fun x p => addNode x p.1 p.2) y).map φ.toFun =
        (l.map fun p => (p.1, p.2.map φ.toFun)).foldl (fun x p => addNode x p.1 p.2)
          (y.map φ.toFun) := by
    induction l generalizing y with
    | nil => rfl
    | cons p l ih => rw [List.foldl_cons, ih, addNode_map, List.map_cons, List.foldl_cons]
  rw [scatter, hFold, scatter, Vector.toList_map, List.zip_map_right]
  rfl

/-- What a scattered vector leaves at a node, mapped. -/
theorem node_scatter_map {x : Array α} (hFits : ∀ a, 3 * nodes.get a + 3 ≤ x.size)
    (v : Vector (Vec3 α) n) (i : Nat) :
    (node (scatter nodes v x) i).map φ.toFun = (node x i).map φ.toFun +
      spread nodes (fun a => (v.get a).map φ.toFun) i := by
  have hMapped : ∀ a, 3 * nodes.get a + 3 ≤ (x.map φ.toFun).size := by
    rw [Array.size_map]
    exact hFits
  rw [← node_map, scatter_map, node_scatter _ hMapped, node_map]
  congr 2
  exact funext fun a => vector_get_map _ _ a

end Stacked

theorem Motion.restrict_map {β : Type} [Scalar β] (φ : Scalar.Hom α β) {n : Nat}
    (nodes : Vector Nat n) (x : Motion α) :
    (x.map φ.toFun).restrict nodes = (x.restrict nodes).map φ.toFun := by
  simp only [restrict, LocalMotion.map, map, Stacked.gather_map]

namespace TypedModel

variable [ElementFamily α] {κ : Kind α} {config : Config α} {x : Motion α}

/-- The mapped energies of elements are added up. -/
theorem addEnergies_map {k : Nat} {l : List ((kind κ).Element × (kind κ).Data)} {y z : α}
    (h : addEnergies config k l y = .ok z) :
    φ.toFun z = φ.toFun y + (l.map fun p => φ.toFun ((kind κ).energy p.1 p.2)).sum := by
  induction l generalizing k y with
  | nil =>
      cases h
      exact (add_zero _).symm
  | cons p l ih =>
      obtain ⟨e, data⟩ := p
      simp only [addEnergies] at h
      split at h
      · cases h
      · rw [ih h, φ.map_add, List.map_cons, List.sum_cons, add_assoc]

/-- The mapped residuals of elements are added up at their nodes. -/
theorem node_addResiduals_map {k : Nat} {l : List ((kind κ).Element × (kind κ).Data)}
    {r r' : Array α} (hFits : ∀ p ∈ l, ∀ a, 3 * ((kind κ).nodes p.1).get a + 3 ≤ r.size)
    (h : addResiduals config x k l r = (r', .ok ())) (i : Nat) :
    (Stacked.node r' i).map φ.toFun = (Stacked.node r i).map φ.toFun + (l.map fun p =>
      Stacked.spread ((kind κ).nodes p.1) (fun a => (((kind κ).residual p.1 p.2
        (x.restrict ((kind κ).nodes p.1)) config.gravity).get a).map φ.toFun) i).sum := by
  induction l generalizing k r with
  | nil =>
      cases h
      exact (add_zero _).symm
  | cons p l ih =>
      obtain ⟨e, data⟩ := p
      simp only [addResiduals] at h
      split at h
      · cases h
      · have hSize := Stacked.size_scatter ((kind κ).nodes e)
          ((kind κ).residual e data (x.restrict ((kind κ).nodes e)) config.gravity) r
        rw [ih (fun p hp a => hSize ▸ hFits p (List.mem_cons_of_mem _ hp) a) h,
          Stacked.node_scatter_map φ _ (hFits _ List.mem_cons_self), List.map_cons, List.sum_cons,
          add_assoc]

variable {m : TypedModel α κ}

/-- The mapped energy of a model is the sum of the mapped energies of its elements. -/
theorem energyAt_map (hx : x.Sized (Model.typed m).numDofs) {z : α}
    (h : (Model.typed m).energyAt x = .ok z) : φ.toFun z =
      (m.elements.toList.map fun e => φ.toFun ((kind κ).energy e ((kind κ).dataAt e x))).sum := by
  have hEnergy := (Model.energyAt_eq hx).symm.trans h
  rw [Model.energyOf] at hEnergy
  rw [addEnergies_map φ hEnergy, φ.map_zero, zero_add, elementsAt, List.map_map]
  rfl

/-- The mapped residual of a model is, at every node, the sum of what its elements leave there. -/
theorem node_residualAt_map (hFits : ∀ e ∈ m.elements, ∀ a : Fin (kind κ).nodeCount,
      ((kind κ).nodes e).get a < m.referencePositions.size)
    (hx : x.Sized (Model.typed m).numDofs) {r : Array α}
    (h : (Model.typed m).residualAt x = .ok r) (i : Nat) :
    (Stacked.node r i).map φ.toFun = (m.elements.toList.map fun e =>
      Stacked.spread ((kind κ).nodes e) (fun a => (((kind κ).residual e ((kind κ).dataAt e x)
        (x.restrict ((kind κ).nodes e)) m.config.gravity).get a).map φ.toFun) i).sum := by
  have hResidual := (Model.residualAt_eq_ok_iff hx).mp h
  rw [Model.residualOf] at hResidual
  rw [node_addResiduals_map φ (fun p hp a => ?_) hResidual, Stacked.node_replicate, Vec3.map_zero,
    zero_add, elementsAt, List.map_map]
  · rfl
  · obtain ⟨e, he, rfl⟩ := List.mem_map.mp hp
    have hLt := hFits e (by simpa using he) a
    rw [Array.size_replicate, Array.size_replicate]
    show 3 * ((kind κ).nodes e).get a + 3 ≤ 3 * m.referencePositions.size
    omega

end TypedModel

end Elastodynamics
