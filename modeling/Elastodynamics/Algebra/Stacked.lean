import Elastodynamics.Algebra.Vec3
/-!
Stacked vectors: the components of one space vector per node, node by node, so that component `p` of
node `i` has index `3 * i + p`.
-/
namespace Elastodynamics.Stacked

variable {α : Type}

/-- The stacked vector of a list of space vectors. -/
def ofNodes (nodes : List (Vec3 α)) : Array α := (nodes.flatMap Vec3.toList).toArray

theorem size_ofNodes (nodes : List (Vec3 α)) : (ofNodes nodes).size = 3 * nodes.length := by
  induction nodes with
  | nil => rfl
  | cons v nodes ih =>
    simp only [ofNodes, List.size_toArray, List.flatMap_cons, List.length_append,
      Vec3.length_toList, List.length_cons] at *
    omega

variable [Scalar α]

/-- The space vector of node `i`; components outside of the stacked vector are read as zero. -/
def node (x : Array α) (i : Nat) : Vec3 α := Vec3.ofFn fun p => (x[3 * i + p.val]?).getD 0

/-- Adds to the space vector of node `i`; outside of the stacked vector nothing happens. -/
def addNode (x : Array α) (i : Nat) (v : Vec3 α) : Array α :=
  (List.finRange 3).foldl (fun x p => x.modify (3 * i + p.val) (· + v.get p)) x

@[simp] theorem size_addNode (x : Array α) (i : Nat) (v : Vec3 α) :
    (addNode x i v).size = x.size := by
  simp [addNode, List.finRange]

/-- The space vectors of some nodes. -/
def gather {n : Nat} (nodes : Vector Nat n) (x : Array α) : Vector (Vec3 α) n := nodes.map (node x)

/-- Adds a space vector at each of some nodes. -/
def scatter {n : Nat} (nodes : Vector Nat n) (v : Vector (Vec3 α) n) (x : Array α) : Array α :=
  (nodes.toList.zip v.toList).foldl (fun x (i, f) => addNode x i f) x

end Elastodynamics.Stacked
