import Elastodynamics.Element.Nodes
import Mathlib.Order.Bounds.Basic
/-!
The check of nodes. The nodes of an element pass exactly if there are as many as its shape has, all
of them exist, and none occurs twice. Otherwise a wrong number is reported before anything else, and
then the first node that does not exist or is among those before it. Whether a node exists is asked
first, so a node out of bounds is never reported as repeated.
-/
namespace Elastodynamics

/-! ### One node after the other -/

theorem checkNodes_eq_ok_iff {numNodes : Nat} {seen nodes : List Nat} :
    checkNodes numNodes seen nodes = .ok () ↔
      nodes.Nodup ∧ ∀ i ∈ nodes, i < numNodes ∧ i ∉ seen := by
  induction nodes generalizing seen with
  | nil => simp [checkNodes]
  | cons node nodes ih =>
      rw [checkNodes]
      by_cases hOutside : numNodes ≤ node
      · rw [if_pos hOutside]
        refine ⟨nofun, fun h => ?_⟩
        exact absurd (h.2 node List.mem_cons_self).1 (Nat.not_lt_of_le hOutside)
      · rw [if_neg hOutside]
        by_cases hSeen : node ∈ seen
        · rw [if_pos (List.contains_iff_mem.mpr hSeen)]
          exact ⟨nofun, fun h => absurd hSeen (h.2 node List.mem_cons_self).2⟩
        · rw [if_neg (mt List.contains_iff_mem.mp hSeen), ih, List.nodup_cons]
          simp only [List.mem_cons, not_or, forall_eq_or_imp]
          constructor
          · rintro ⟨hDistinct, hNodes⟩
            exact ⟨⟨fun hMem => (hNodes node hMem).2.1 rfl, hDistinct⟩,
              ⟨Nat.lt_of_not_le hOutside, hSeen⟩, fun i hi => ⟨(hNodes i hi).1, (hNodes i hi).2.2⟩⟩
          · rintro ⟨⟨hNew, hDistinct⟩, _, hNodes⟩
            refine ⟨hDistinct, fun i hi => ⟨(hNodes i hi).1, ?_, (hNodes i hi).2⟩⟩
            rintro rfl
            exact hNew hi

theorem validateNodes_eq_ok_iff {nodes : List Nat} {expected numNodes : Nat} :
    validateNodes nodes expected numNodes = .ok () ↔
      nodes.length = expected ∧ nodes.Nodup ∧ ∀ i ∈ nodes, i < numNodes := by
  rw [validateNodes]
  by_cases hCount : nodes.length = expected
  · rw [if_neg (not_not.mpr hCount), checkNodes_eq_ok_iff]
    simp [hCount]
  · rw [if_pos hCount]
    exact ⟨nofun, fun h => absurd h.1 hCount⟩

/-- The check of nodes stops at the first node that is out of bounds or not new. -/
theorem checkNodes_eq_error {numNodes : Nat} {seen nodes : List Nat} {reason : ElementError}
    (h : checkNodes numNodes seen nodes = .error reason) :
    ∃ before i after, nodes = before ++ i :: after ∧
      checkNodes numNodes seen before = .ok () ∧
      (numNodes ≤ i ∧ reason = .nodeOutOfBounds i numNodes ∨
        (i ∈ seen ∨ i ∈ before) ∧ reason = .repeatedNode i) := by
  induction nodes generalizing seen with
  | nil => cases h
  | cons node nodes ih =>
      rw [checkNodes] at h
      split at h
      · next hOutside =>
          cases h
          exact ⟨[], node, nodes, rfl, rfl, .inl ⟨hOutside, rfl⟩⟩
      · next hInside =>
          split at h
          · next hSeen =>
              cases h
              exact ⟨[], node, nodes, rfl, rfl, .inr ⟨.inl (List.contains_iff_mem.mp hSeen), rfl⟩⟩
          · next hNew =>
              obtain ⟨before, i, after, rfl, hBefore, hReason⟩ := ih h
              refine ⟨node :: before, i, after, rfl, ?_, ?_⟩
              · rw [checkNodes, if_neg hInside, if_neg hNew, hBefore]
              · rcases hReason with hOutside | ⟨hMem, hRepeated⟩
                · exact .inl hOutside
                · refine .inr ⟨?_, hRepeated⟩
                  rcases hMem with hMem | hMem
                  · rcases List.mem_cons.mp hMem with rfl | hMem
                    · exact .inr List.mem_cons_self
                    · exact .inl hMem
                  · exact .inr (List.mem_cons_of_mem node hMem)

/-! ### One place after the other -/

variable {numNodes : Nat}

/-- Looks at a node and its place in a list: it must exist and not occur at a place before. -/
def checkPlace (numNodes : Nat) (nodes : List Nat) : Nat × Nat → Except ElementError Unit
  | (node, p) =>
    if numNodes ≤ node then .error (.nodeOutOfBounds node numNodes)
    else if (nodes.take p).contains node then .error (.repeatedNode node)
    else .ok ()

/-- Checks nodes place by place, each of them against the list up to there. -/
def validateByPlace (nodes : List Nat) (expected numNodes : Nat) : Except ElementError Unit :=
  if nodes.length ≠ expected then .error (.wrongNodeCount expected nodes.length)
  else forM nodes.zipIdx (checkPlace numNodes nodes)

/-- Nodes that have been seen are the nodes at the places before. -/
theorem checkNodes_eq_forM {seen before rest : List Nat} (hSeen : ∀ i, i ∈ seen ↔ i ∈ before) :
    checkNodes numNodes seen rest =
      forM (rest.zipIdx before.length) (checkPlace numNodes (before ++ rest)) := by
  induction rest generalizing seen before with
  | nil => rfl
  | cons node rest ih =>
      have hPlace : checkPlace numNodes (before ++ node :: rest) (node, before.length) =
          if numNodes ≤ node then .error (.nodeOutOfBounds node numNodes)
          else if seen.contains node then .error (.repeatedNode node) else .ok () := by
        have hContains : before.contains node = seen.contains node := by
          rw [Bool.eq_iff_iff, List.contains_iff_mem, List.contains_iff_mem, hSeen]
        rw [checkPlace, List.take_left, hContains]
      have hSeen' (i : Nat) : i ∈ node :: seen ↔ i ∈ before ++ [node] := by
        rw [List.mem_cons, List.mem_append, List.mem_singleton, hSeen, or_comm]
      have hRest := ih hSeen'
      rw [List.length_append, List.length_singleton, List.append_assoc] at hRest
      rw [checkNodes, List.zipIdx_cons, List.forM_cons, hPlace, hRest]
      split
      · rfl
      · split
        · rfl
        · rfl

theorem validateNodes_eq_validateByPlace (nodes : List Nat) (expected numNodes : Nat) :
    validateNodes nodes expected numNodes = validateByPlace nodes expected numNodes := by
  rw [validateNodes, validateByPlace]
  split
  · rfl
  · exact checkNodes_eq_forM fun _ => Iff.rfl

/-! ### What is reported -/

/-- Whether nodes are distinct ones of `numNodes` nodes. -/
structure ValidNodes (numNodes : Nat) (nodes : List Nat) : Prop where
  lt : ∀ i ∈ nodes, i < numNodes
  distinct : nodes.Nodup

variable {before nodes : List Nat} {i expected : Nat}

theorem ValidNodes.sublist (h : ValidNodes numNodes nodes) (hSub : before.Sublist nodes) :
    ValidNodes numNodes before :=
  ⟨fun i hi => h.lt i (hSub.subset hi), h.distinct.sublist hSub⟩

theorem checkNodes_nil_eq_ok_iff :
    checkNodes numNodes [] nodes = .ok () ↔ ValidNodes numNodes nodes := by
  rw [checkNodes_eq_ok_iff]
  simp only [List.not_mem_nil, not_false_eq_true, and_true]
  exact ⟨fun h => ⟨h.2, h.1⟩, fun h => ⟨h.distinct, h.lt⟩⟩

/-- Valid nodes stop being valid with one that is out of bounds or among them. -/
theorem ValidNodes.append_singleton_iff (h : ValidNodes numNodes before) :
    ValidNodes numNodes (before ++ [i]) ↔ i < numNodes ∧ i ∉ before := by
  have hLt : (∀ j ∈ before ++ [i], j < numNodes) ↔ i < numNodes := by
    rw [List.forall_mem_append, List.forall_mem_singleton, and_iff_right h.lt]
  have hDistinct : (before ++ [i]).Nodup ↔ i ∉ before := by
    rw [(List.perm_append_singleton i before).nodup_iff, List.nodup_cons,
      and_iff_left h.distinct]
  exact ⟨fun hValid => ⟨hLt.mp hValid.lt, hDistinct.mp hValid.distinct⟩,
    fun hi => ⟨hLt.mpr hi.1, hDistinct.mpr hi.2⟩⟩

/-- If nodes are valid up to one of them and not with it, it is at the least such place. -/
theorem ValidNodes.isLeast_length {after : List Nat} (hBefore : ValidNodes numNodes before)
    (hNode : ¬ ValidNodes numNodes (before ++ [i])) :
    IsLeast {p | ¬ ValidNodes numNodes ((before ++ i :: after).take (p + 1))} before.length := by
  constructor
  · have hTake : (before ++ i :: after).take (before.length + 1) = before ++ [i] := by
      rw [List.take_append, List.take_of_length_le (Nat.le_succ _), Nat.add_sub_cancel_left]
      rfl
    change ¬ ValidNodes numNodes ((before ++ i :: after).take (before.length + 1))
    rw [hTake]
    exact hNode
  · intro p hp
    by_contra hLess
    refine hp (hBefore.sublist ?_)
    rw [List.take_append_of_le_length (by omega)]
    exact List.take_sublist _ _

/-- Nodes that are not valid are rejected for the first one with which they stop being valid. -/
theorem checkNodes_of_invalid (h : ¬ ValidNodes numNodes nodes) :
    ∃ before i after, nodes = before ++ i :: after ∧ ValidNodes numNodes before ∧
      (numNodes ≤ i ∧ checkNodes numNodes [] nodes = .error (.nodeOutOfBounds i numNodes) ∨
        i < numNodes ∧ i ∈ before ∧ checkNodes numNodes [] nodes = .error (.repeatedNode i)) := by
  cases hCheck : checkNodes numNodes [] nodes with
  | ok _ => exact absurd (checkNodes_nil_eq_ok_iff.mp hCheck) h
  | error reason =>
      obtain ⟨before, i, after, hSplit, hBefore, hReason⟩ := checkNodes_eq_error hCheck
      rw [checkNodes_nil_eq_ok_iff] at hBefore
      refine ⟨before, i, after, hSplit, hBefore, ?_⟩
      rcases hReason with ⟨hOutside, rfl⟩ | ⟨hMem, rfl⟩
      · exact .inl ⟨hOutside, rfl⟩
      · replace hMem : i ∈ before := hMem.resolve_left List.not_mem_nil
        exact .inr ⟨hBefore.lt i hMem, hMem, rfl⟩

/-- **The check of nodes.** For any list, any expected number and any number of nodes there are: the
check by the nodes seen so far is the check of each place against those before it. Exactly lists of
the expected length of distinct nodes that exist pass. In another list the length is reported if it
is wrong, and otherwise the node at the first place up to which the list is not valid: as out of
bounds if it does not exist, and as repeated if it does, and then it is at a place before. -/
theorem validateNodes_exact (nodes : List Nat) (expected numNodes : Nat) :
    validateNodes nodes expected numNodes = validateByPlace nodes expected numNodes ∧
    (validateNodes nodes expected numNodes = .ok () ↔
      nodes.length = expected ∧ (∀ i ∈ nodes, i < numNodes) ∧ nodes.Nodup) ∧
    (nodes.length ≠ expected →
      validateNodes nodes expected numNodes = .error (.wrongNodeCount expected nodes.length)) ∧
    (nodes.length = expected → ¬ ValidNodes numNodes nodes → ∃ p i, nodes[p]? = some i ∧
      IsLeast {p | ¬ ValidNodes numNodes (nodes.take (p + 1))} p ∧
      (numNodes ≤ i →
        validateNodes nodes expected numNodes = .error (.nodeOutOfBounds i numNodes)) ∧
      (i < numNodes → i ∈ nodes.take p ∧
        validateNodes nodes expected numNodes = .error (.repeatedNode i))) := by
  refine ⟨validateNodes_eq_validateByPlace nodes expected numNodes, ?_, fun hCount => ?_,
    fun hCount hInvalid => ?_⟩
  · rw [validateNodes_eq_ok_iff, and_comm (a := nodes.Nodup)]
  · rw [validateNodes, if_pos hCount]
  · rw [validateNodes, if_neg (not_not.mpr hCount)]
    obtain ⟨before, i, after, rfl, hBefore, hReport⟩ := checkNodes_of_invalid hInvalid
    have hPlace : (before ++ i :: after)[before.length]? = some i := by simp
    rcases hReport with ⟨hOutside, hError⟩ | ⟨hInside, hMem, hError⟩
    · have hNode : ¬ ValidNodes numNodes (before ++ [i]) := fun h =>
        absurd (hBefore.append_singleton_iff.mp h).1 (Nat.not_lt_of_le hOutside)
      exact ⟨before.length, i, hPlace, hBefore.isLeast_length hNode, fun _ => hError,
        fun hLt => absurd hLt (Nat.not_lt_of_le hOutside)⟩
    · have hNode : ¬ ValidNodes numNodes (before ++ [i]) := fun h =>
        (hBefore.append_singleton_iff.mp h).2 hMem
      refine ⟨before.length, i, hPlace, hBefore.isLeast_length hNode,
        fun hLe => absurd hInside (Nat.not_lt_of_le hLe), fun _ => ⟨?_, hError⟩⟩
      rw [List.take_left]
      exact hMem

/-- Up to its third node the list is not valid any more: that node is out of bounds, and that
another one is repeated further on is not reported. -/
theorem validateNodes_exact_mixed :
    [0, 1, 7, 1].length = 4 ∧ ¬ ValidNodes 4 [0, 1, 7, 1] ∧
      validateNodes [0, 1, 7, 1] 4 4 = .error (.nodeOutOfBounds 7 4) ∧
      [0, 1, 7].length ≠ 4 ∧ validateNodes [0, 1, 7] 4 4 = .error (.wrongNodeCount 4 3) := by
  have hInvalid : ¬ ValidNodes 4 [0, 1, 7, 1] := fun h => absurd (h.lt 7 (by decide)) (by decide)
  obtain ⟨_, _, _, hReport⟩ := validateNodes_exact [0, 1, 7, 1] 4 4
  obtain ⟨p, i, hNode, hLeast, hOutside, _⟩ := hReport rfl hInvalid
  have hPlace : IsLeast {p | ¬ ValidNodes 4 (([0, 1] ++ 7 :: [1]).take (p + 1))} 2 :=
    ValidNodes.isLeast_length ⟨by decide, by decide⟩
      fun h => absurd (h.lt 7 (by decide)) (by decide)
  obtain rfl := hLeast.unique hPlace
  cases hNode
  obtain ⟨_, _, hCount, _⟩ := validateNodes_exact [0, 1, 7] 4 4
  exact ⟨rfl, hInvalid, hOutside (by decide), by decide, hCount (by decide)⟩

end Elastodynamics
