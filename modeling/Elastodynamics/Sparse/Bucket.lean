/-!
Sorting the elements of a list into numbered buckets in one pass.
-/
namespace Elastodynamics.Sparse

variable {β : Type}

/-- Bucket `k` of `n` holds the elements with key `k`, in the order of the list. -/
def bucket (n : Nat) (key : β → Nat) (l : List β) : Array (List β) :=
  l.foldr (fun x buckets => buckets.modify (key x) (x :: ·)) (Array.replicate n [])

@[simp] theorem size_bucket (n : Nat) (key : β → Nat) (l : List β) :
    (bucket n key l).size = n := by
  induction l with
  | nil => simp [bucket]
  | cons x l ih => simpa [bucket] using ih

theorem getElem_bucket (n : Nat) (key : β → Nat) (l : List β) (k : Nat)
    (h : k < (bucket n key l).size) : (bucket n key l)[k] = l.filter fun x => key x == k := by
  induction l with
  | nil => simp [bucket]
  | cons x l ih =>
    have step : bucket n key (x :: l) = (bucket n key l).modify (key x) (x :: ·) := rfl
    simp only [step, Array.getElem_modify]
    have hk : k < (bucket n key l).size := by simpa using h
    by_cases hx : key x = k
    · simp [hx, ih hk]
    · simp [hx, ih hk]

/-- The partial sums of a list of sizes, each added to `start`. -/
def offsetsFrom (start : Nat) : List Nat → List Nat
  | [] => [start]
  | n :: sizes => start :: offsetsFrom (start + n) sizes

end Elastodynamics.Sparse
