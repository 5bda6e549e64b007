import Elastodynamics.State.Basic
/-!
Slots of a state. Each write to the contents of a state is described by the motion and the slots
that are read afterwards, and the evaluation of a slot by what its calculation does: a filled slot
is read and nothing else happens.
-/
namespace Elastodynamics

namespace Motion

variable {α : Type}

theorem get_set (m : Motion α) (p q : Partition) (x : Array α) :
    (m.set p x).get q = if q = p then x else m.get q := by
  cases p with
  | positions => cases q <;> rfl
  | velocities => cases q <;> rfl
  | accelerations => cases q <;> rfl

/-- Motions with the same partitions are equal. -/
theorem ext_get {m m' : Motion α} (h : ∀ p, m.get p = m'.get p) : m = m' := by
  obtain ⟨x, v, a⟩ := m
  obtain ⟨x', v', a'⟩ := m'
  have hx : x = x' := h .positions
  have hv : v = v' := h .velocities
  have ha : a = a' := h .accelerations
  rw [hx, hv, ha]

/-- Whether every partition has the given number of components. -/
def Sized (m : Motion α) (n : Nat) : Prop := ∀ p, (m.get p).size = n

/-- The motion without the first `n` components of each partition. -/
def drop (m : Motion α) (n : Nat) : Motion α where
  positions := m.positions.extract n
  velocities := m.velocities.extract n
  accelerations := m.accelerations.extract n

/-- The first `n` components of each partition of a motion. -/
def take (m : Motion α) (n : Nat) : Motion α where
  positions := m.positions.extract 0 n
  velocities := m.velocities.extract 0 n
  accelerations := m.accelerations.extract 0 n

theorem get_drop (m : Motion α) (n : Nat) (p : Partition) :
    (m.drop n).get p = (m.get p).extract n := by
  cases p <;> rfl

theorem get_take (m : Motion α) (n : Nat) (p : Partition) :
    (m.take n).get p = (m.get p).extract 0 n := by
  cases p <;> rfl

theorem drop_drop (x : Motion α) (k n : Nat) : (x.drop k).drop n = x.drop (k + n) := by
  apply ext_get
  intro p
  rw [get_drop, get_drop, get_drop]
  apply Array.ext
  · simp only [Array.size_extract]
    omega
  · intro i h₁ h₂
    simp only [Array.getElem_extract]
    congr 1
    omega

theorem get_take_drop (x : Motion α) (k n : Nat) (p : Partition) :
    ((x.drop k).take n).get p = (x.get p).extract k (k + n) := by
  rw [get_take, get_drop]
  apply Array.ext
  · simp only [Array.size_extract]
    omega
  · intro i h₁ h₂
    simp only [Array.getElem_extract]
    congr 1
    omega

theorem drop_zero (x : Motion α) : x.drop 0 = x := by
  apply ext_get
  intro p
  rw [get_drop, Array.extract_size]

theorem Sized.set {m : Motion α} {n : Nat} (h : m.Sized n) {p : Partition} {x : Array α}
    (hx : x.size = n) : (m.set p x).Sized n := by
  intro q
  rw [get_set]
  split
  · exact hx
  · exact h q

theorem Sized.take {m : Motion α} {k n : Nat} (h : m.Sized (k + n)) : (m.take k).Sized k := by
  intro p
  rw [get_take, Array.size_extract, h p]
  omega

theorem Sized.drop {m : Motion α} {k n : Nat} (h : m.Sized (k + n)) : (m.drop k).Sized n := by
  intro p
  rw [get_drop, Array.size_extract, h p]
  omega

theorem sized_atRest [Zero α] (x : Array α) : (atRest x).Sized x.size := by
  intro p
  cases p with
  | positions => rfl
  | velocities => exact Array.size_replicate
  | accelerations => exact Array.size_replicate

theorem get_restrict [Scalar α] (m : Motion α) {n : Nat} (nodes : Vector Nat n) (p : Partition) :
    (m.restrict nodes).get p = Stacked.gather nodes (m.get p) := by
  cases p <;> rfl

end Motion

/-- The data of an element depend on the partitions only that are declared for its kind. -/
theorem ElementKind.dataAt_congr {α : Type} [Scalar α] (E : ElementKind α) (e : E.Element)
    {m m' : Motion α} (h : ∀ p, E.dependencies.has p = true → m.get p = m'.get p) :
    E.dataAt e m = E.dataAt e m' := by
  refine E.computeData_congr e fun p hp => ?_
  rw [Motion.get_restrict, Motion.get_restrict, h p hp]

namespace Dependencies

theorem single_intersects (p : Partition) (d : Dependencies) :
    (single p).intersects d = d.has p := by
  cases p with
  | positions => simp [intersects, intersection, isEmpty, single, has, none]
  | velocities => simp [intersects, intersection, isEmpty, single, has, none]
  | accelerations => simp [intersects, intersection, isEmpty, single, has, none]

/-- Of two sets without a common partition, none has a partition of the other. -/
theorem has_eq_false_of_not_intersects {d e : Dependencies} (h : d.intersects e = false)
    {p : Partition} (hp : d.has p = true) : e.has p = false := by
  cases p with
  | positions => simp_all [intersects, intersection, isEmpty, has]
  | velocities => simp_all [intersects, intersection, isEmpty, has]
  | accelerations => simp_all [intersects, intersection, isEmpty, has]

theorem has_single (p q : Partition) : (single p).has q = decide (q = p) := by
  cases p with
  | positions => cases q <;> rfl
  | velocities => cases q <;> rfl
  | accelerations => cases q <;> rfl

end Dependencies

namespace Memo

variable {α ν : Type} (m : Memo α ν)

/-! ### Writes -/

theorem isFilled_start (i j : Nat) : (m.start i).isFilled j = m.isFilled j :=
  rfl

theorem slot?_fill (i : Nat) (v : ν) (j : Nat) :
    (m.fill i v).slot? j = if j = i ∧ i < m.slots.length then some v else m.slot? j := by
  rw [slot?, slot?, fill, List.getElem?_set]
  by_cases hji : j = i
  · subst hji
    by_cases hj : j < m.slots.length
    · simp [hj]
    · simp [hj]
  · simp [hji, Ne.symm hji]

/-- A change of a filled slot puts the changed value into it. -/
theorem update_of_slot? {i : Nat} {v : ν} (h : m.slot? i = some v) (f : ν → ν) :
    m.update i f = m.fill i (f v) := by
  have hSlot : m.slots[i]? = some (some v) := by
    rw [slot?] at h
    cases hGet : m.slots[i]? with
    | none =>
        rw [hGet] at h
        cases h
    | some w =>
        rw [hGet] at h
        exact congrArg some h
  have hSlots : m.slots.modify i (Option.map f) = m.slots.set i (some (f v)) := by
    apply List.ext_getElem?
    intro j
    rw [List.getElem?_modify, List.getElem?_set]
    by_cases hij : i = j
    · subst hij
      have hLength : i < m.slots.length := (List.getElem?_eq_some_iff.mp hSlot).1
      rw [hSlot]
      simp [hLength]
    · simp [hij]
  rw [update, fill, hSlots]

theorem slot?_fresh (motion : Motion α) (count j : Nat) :
    (fresh motion count : Memo α ν).slot? j = none := by
  rw [slot?, fresh, List.getElem?_replicate]
  split <;> rfl

/-- Only slots that exist are filled. -/
theorem lt_of_slot? {m : Memo α ν} {i : Nat} {v : ν} (h : m.slot? i = some v) :
    i < m.slots.length := by
  apply Nat.lt_of_not_le
  intro hle
  rw [slot?, List.getElem?_eq_none hle] at h
  cases h

theorem getElem?_clear (changed : Dependencies) (dependencies : List Dependencies)
    (slots : List (Option ν)) (j : Nat) :
    (clear changed dependencies slots)[j]?.join =
      if dependencies[j]?.any (·.intersects changed) then none else slots[j]?.join := by
  induction dependencies generalizing slots j with
  | nil => simp [clear]
  | cons d dependencies ih =>
      cases slots with
      | nil => simp [clear]
      | cons v slots =>
          cases j with
          | zero =>
              by_cases hd : d.intersects changed = true
              · simp [clear, hd]
              · simp [clear, hd]
          | succ j => simpa [clear] using ih slots j

theorem slot?_invalidate (dependencies : List Dependencies) (changed : Dependencies) (j : Nat) :
    (m.invalidate dependencies changed).slot? j =
      if dependencies[j]?.any (·.intersects changed) then none else m.slot? j :=
  getElem?_clear changed dependencies m.slots j

theorem length_clear (changed : Dependencies) (dependencies : List Dependencies)
    (slots : List (Option ν)) : (clear changed dependencies slots).length = slots.length := by
  induction dependencies generalizing slots with
  | nil => simp [clear]
  | cons d dependencies ih =>
      cases slots with
      | nil => rfl
      | cons v slots => simp [clear, ih]

theorem length_invalidate (dependencies : List Dependencies) (changed : Dependencies) :
    (m.invalidate dependencies changed).slots.length = m.slots.length :=
  length_clear changed dependencies m.slots

theorem length_fill (i : Nat) (v : ν) : (m.fill i v).slots.length = m.slots.length :=
  List.length_set

/-! ### Evaluation -/

variable [ElementFamily α] {entries : List (Entry α)} {i : Nat} {entry : Entry α} {v : Value α}
  {memo : Memo α (Value α)}

theorem eval_of_none (h : entries[i]? = none) : memo.eval entries i = (.error .noEntry, memo) := by
  rw [eval, evalWithin, h]

/-- A filled slot is read, and nothing else happens. -/
theorem evalWithin_filled (depth : Nat) (hEntry : entries[i]? = some entry)
    (hSlot : memo.slot? i = some v) : evalWithin entries (depth + 1) i memo = (.ok v, memo) := by
  rw [evalWithin, hEntry]
  simp only [hSlot]

/-- An empty slot whose calculation knows the value is filled with it. -/
theorem evalWithin_done (depth : Nat) (hEntry : entries[i]? = some entry)
    (hSlot : memo.slot? i = none) (hCalculation : entry.calculation memo.motion = .done v) :
    evalWithin entries (depth + 1) i memo = (.ok v, (memo.start i).fill i v) := by
  have hStarted : (memo.start i).isFilled i = false := by
    rw [isFilled_start, isFilled, hSlot]
    rfl
  rw [evalWithin, hEntry]
  simp only [hSlot, hCalculation, Calculation.run, hStarted, Bool.false_eq_true, if_false]

end Memo

end Elastodynamics
