import Mathlib.Data.List.DropRight
import Elastodynamics.Proofs.State.Slots
/-!
Events of slots. The evaluation of a slot may start calculations inside of each other, and each of
them gives a value or fails. The events record this in order, together with the changes of
partitions that empty slots. No event is forgotten by the contents: what is filled, and how often
calculations have been started, can be told from them.
-/
namespace Elastodynamics

/-- What happens to the slots of a state. -/
inductive SlotEvent where
  /-- The calculation of a slot is started. -/
  | started (i : Nat)
  /-- The evaluation of a slot gives a value, which was there before or has been calculated. -/
  | evaluated (i : Nat)
  /-- The calculation of a slot, which has been started, fails. -/
  | failed (i : Nat)
  /-- Partitions are written or invalidated. -/
  | changed (partitions : Dependencies)
deriving DecidableEq

namespace SlotEvent

/-- Whether an event empties the slots with the given dependencies. -/
def empties (d : Dependencies) : SlotEvent → Bool
  | changed partitions => d.intersects partitions
  | _ => false

/-- The events after the last one that empties the slots with the given dependencies. -/
def since (d : Dependencies) (events : List SlotEvent) : List SlotEvent :=
  events.rtakeWhile fun e => !e.empties d

theorem since_concat (d : Dependencies) (events : List SlotEvent) (e : SlotEvent) :
    since d (events ++ [e]) = if e.empties d then [] else since d events ++ [e] := by
  rw [since, List.rtakeWhile_concat]
  cases e.empties d <;> rfl

theorem since_append {d : Dependencies} {events' : List SlotEvent}
    (h : ∀ e ∈ events', e.empties d = false) (events : List SlotEvent) :
    since d (events ++ events') = since d events ++ events' := by
  induction events' generalizing events with
  | nil => rw [List.append_nil, List.append_nil]
  | cons e events' ih =>
      obtain ⟨hFirst, hRest⟩ := List.forall_mem_cons.mp h
      rw [List.append_cons, ih hRest, since_concat, hFirst, if_neg Bool.false_ne_true,
        ← List.append_cons]

/-- Nothing empties a slot without dependencies. -/
theorem since_none (events : List SlotEvent) : since .none events = events := by
  have hKept (e : SlotEvent) : e.empties .none = false := by
    cases e <;> rfl
  exact since_append (fun e _ => hKept e) []

/-! ### One slot -/

/-- That events tell whether slot `k` is filled after them, if one knows whether it was before. -/
structure Explains (k : Nat) (before : Bool) (events : List SlotEvent) (after : Bool) : Prop where
  filled_iff : after = true ↔ before = true ∨ .evaluated k ∈ events
  /-- The calculation of a slot that is filled is not started. -/
  quiet : before = true → .started k ∉ events
  /-- No calculation is started after it has given a value. -/
  settled : ∀ l l', events = l ++ .evaluated k :: l' → .started k ∉ l'

/-- That events explain what is in slot `k`, and every calculation that they start has either failed
or filled the slot. -/
structure Accounts (k : Nat) (before : Bool) (events : List SlotEvent) (after : Bool) : Prop
    extends Explains k before events after where
  starts : events.count (.started k) =
    events.count (.failed k) + if after && !before then 1 else 0

variable {k i : Nat} {b b' b'' : Bool} {events events' : List SlotEvent}

/-- Nothing comes after the only event. -/
theorem rest_eq_nil {e e' : SlotEvent} {l l' : List SlotEvent} (h : [e] = l ++ e' :: l') :
    l' = [] := by
  cases l with
  | nil => exact (List.cons.inj h).2.symm
  | cons first l => simp at h

theorem Accounts.nil (k : Nat) (b : Bool) : Accounts k b [] b where
  filled_iff := by simp
  quiet := nofun
  settled l l' h := by simp at h
  starts := by simp

theorem Explains.single {e : SlotEvent} (hStarted : e ≠ .started k)
    (hEvaluated : e ≠ .evaluated k) : Explains k b [e] b where
  filled_iff := by simp [Ne.symm hEvaluated]
  quiet _ hMem := hStarted (List.mem_singleton.mp hMem).symm
  settled l l' h := by
    rw [rest_eq_nil h]
    exact List.not_mem_nil

theorem Explains.started (k : Nat) : Explains k false [.started k] false where
  filled_iff := by simp
  quiet := nofun
  settled l l' h := by
    rw [rest_eq_nil h]
    exact List.not_mem_nil

theorem Accounts.evaluated (k : Nat) : Accounts k true [.evaluated k] true where
  filled_iff := by simp
  quiet _ := by simp
  settled l l' h := by
    rw [rest_eq_nil h]
    exact List.not_mem_nil
  starts := by simp

theorem Explains.evaluated (k : Nat) : Explains k false [.evaluated k] true where
  filled_iff := by simp
  quiet := nofun
  settled l l' h := by
    rw [rest_eq_nil h]
    exact List.not_mem_nil

theorem Accounts.single {e : SlotEvent} (hStarted : e ≠ .started k) (hEvaluated : e ≠ .evaluated k)
    (hFailed : e ≠ .failed k) : Accounts k b [e] b where
  toExplains := .single hStarted hEvaluated
  starts := by simp [hStarted, hFailed]

/-- A change of partitions on which the slot does not depend. -/
theorem Accounts.changed (partitions : Dependencies) : Accounts k b [.changed partitions] b :=
  .single nofun nofun nofun

/-- A slot that is filled stays so. -/
theorem Explains.mono (h : Explains k b events b') (hb : b = true) : b' = true :=
  h.filled_iff.mpr (.inl hb)

theorem Explains.trans (h : Explains k b events b') (h' : Explains k b' events' b'') :
    Explains k b (events ++ events') b'' where
  filled_iff := by rw [h'.filled_iff, h.filled_iff, List.mem_append, or_assoc]
  quiet hb hMem := by
    rcases List.mem_append.mp hMem with hMem | hMem
    · exact h.quiet hb hMem
    · exact h'.quiet (h.mono hb) hMem
  settled l l' hSplit := by
    rcases List.append_eq_append_iff.mp hSplit with ⟨_, _, hRest⟩ | ⟨middle, hFirst, hRest⟩
    · exact h'.settled _ l' hRest
    · cases middle with
      | nil => exact h'.settled [] l' hRest.symm
      | cons e middle =>
          obtain ⟨rfl, rfl⟩ := List.cons.inj hRest
          have hFilled : b' = true := h.filled_iff.mpr (.inr (by simp [hFirst]))
          intro hMem
          rcases List.mem_append.mp hMem with hMem | hMem
          · exact h.settled l middle hFirst hMem
          · exact h'.quiet hFilled hMem

theorem Accounts.trans (h : Accounts k b events b') (h' : Accounts k b' events' b'') :
    Accounts k b (events ++ events') b'' where
  toExplains := h.toExplains.trans h'.toExplains
  starts := by
    have hOnce : (if b' && !b then 1 else 0) + (if b'' && !b' then 1 else 0) =
        if b'' && !b then 1 else 0 := by
      -- the slot is filled in at most one of the two parts
      have hMono := h.mono
      have hMono' := h'.mono
      cases b <;> cases b' <;> simp_all
    rw [List.count_append, List.count_append, h.starts, h'.starts, ← hOnce]
    omega

/-- The calculation of another slot. -/
theorem Accounts.around {last : SlotEvent} (h : Accounts k b events b') (hk : k ≠ i)
    (hLast : last = .evaluated i ∨ last = .failed i) :
    Accounts k b (.started i :: (events ++ [last])) b' := by
  have hStart : Accounts k b [.started i] b :=
    .single (by simp [Ne.symm hk]) nofun nofun
  have hEnd : Accounts k b' [last] b' := by
    rcases hLast with rfl | rfl
    · exact .single nofun (by simp [Ne.symm hk]) nofun
    · exact .single nofun nofun (by simp [Ne.symm hk])
  exact hStart.trans (h.trans hEnd)

/-- A calculation that fails leaves its slot as it is then. -/
theorem Accounts.failed (h : Accounts k false events b) :
    Accounts k false (.started k :: (events ++ [.failed k])) b where
  toExplains := (Explains.started k).trans (h.toExplains.trans (.single nofun nofun))
  starts := by
    simp [h.starts]
    omega

/-- A calculation that gives a value fills its slot. -/
theorem Accounts.filled (h : Accounts k false events false) :
    Accounts k false (.started k :: (events ++ [.evaluated k])) true where
  toExplains := (Explains.started k).trans (h.toExplains.trans (.evaluated k))
  starts := by simp [h.starts]

end SlotEvent

variable {α : Type}

namespace Memo

/-! ### Contents -/

/-- That events, none of which is a change of partitions, explain how contents have changed. -/
structure Advances {ν : Type} (m : Memo α ν) (events : List SlotEvent) (m' : Memo α ν) : Prop where
  motion : m'.motion = m.motion
  length : m'.slots.length = m.slots.length
  runs : ∀ k, m'.runs[k]? = m.runs[k]?.map (· + events.count (.started k))
  slots : ∀ k, SlotEvent.Accounts k (m.isFilled k) events (m'.isFilled k)
  unchanged : ∀ d, .changed d ∉ events

section

variable {ν : Type} {m m' m'' : Memo α ν} {events events' : List SlotEvent} {i : Nat}

theorem isFilled_fill (hi : i < m.slots.length) (v : ν) (k : Nat) :
    (m.fill i v).isFilled k = (decide (k = i) || m.isFilled k) := by
  rw [isFilled, isFilled, slot?_fill]
  by_cases hk : k = i
  · simp [hk, hi]
  · simp [hk]

theorem isFilled_update (m : Memo α ν) (i : Nat) (f : ν → ν) (k : Nat) :
    (m.update i f).isFilled k = m.isFilled k := by
  rw [isFilled, isFilled, slot?, slot?, update, List.getElem?_modify]
  cases m.slots[k]? with
  | none => rfl
  | some slot =>
      by_cases hk : i = k
      · cases slot <;> simp [hk]
      · simp [hk]

theorem getElem?_runs_start (m : Memo α ν) (i k : Nat) :
    (m.start i).runs[k]? = m.runs[k]?.map (· + [SlotEvent.started i].count (.started k)) := by
  rw [start, List.getElem?_modify]
  by_cases hk : i = k
  · simp [hk]
  · simp [hk]

/-- Other values in the filled slots make no event. -/
theorem Advances.of_isFilled (hMotion : m'.motion = m.motion)
    (hLength : m'.slots.length = m.slots.length) (hRuns : m'.runs = m.runs)
    (hFilled : ∀ k, m'.isFilled k = m.isFilled k) : m.Advances [] m' where
  motion := hMotion
  length := hLength
  runs k := by simp [hRuns]
  slots k := hFilled k ▸ .nil k (m.isFilled k)
  unchanged := nofun

theorem Advances.refl (m : Memo α ν) : m.Advances [] m := .of_isFilled rfl rfl rfl fun _ => rfl

/-- A filled slot is read. -/
theorem Advances.read (h : m.isFilled i = true) : m.Advances [.evaluated i] m where
  motion := rfl
  length := rfl
  runs k := by simp
  slots k := by
    by_cases hk : k = i
    · rw [hk, h]
      exact .evaluated i
    · exact .single nofun (by simp [Ne.symm hk]) nofun
  unchanged := nofun

theorem Advances.trans (h : m.Advances events m') (h' : m'.Advances events' m'') :
    m.Advances (events ++ events') m'' where
  motion := h'.motion.trans h.motion
  length := h'.length.trans h.length
  runs k := by
    rw [h'.runs, h.runs, Option.map_map, List.count_append]
    simp only [Function.comp_def, Nat.add_assoc]
  slots k := (h.slots k).trans (h'.slots k)
  unchanged d hMem := by
    rcases List.mem_append.mp hMem with hMem | hMem
    · exact h.unchanged d hMem
    · exact h'.unchanged d hMem

/-- The calculation of an empty slot from its start to its end, if the events inside of it are
known and its end explains what is in its slot. -/
theorem Advances.calculation {last : SlotEvent} (h : (m.start i).Advances events m')
    (hLast : last = .evaluated i ∨ last = .failed i) (hMotion : m''.motion = m'.motion)
    (hLength : m''.slots.length = m'.slots.length) (hRuns : m''.runs = m'.runs)
    (hOther : ∀ k, k ≠ i → m''.isFilled k = m'.isFilled k)
    (hSlot : SlotEvent.Accounts i (m.isFilled i) (.started i :: (events ++ [last]))
      (m''.isFilled i)) :
    m.Advances (.started i :: (events ++ [last])) m'' where
  motion := hMotion.trans h.motion
  length := hLength.trans h.length
  runs k := by
    have hLastStarts : [last].count (.started k) = 0 := by
      rcases hLast with rfl | rfl <;> simp
    have hStarts : (SlotEvent.started i :: (events ++ [last])).count (.started k) =
        [SlotEvent.started i].count (.started k) + events.count (.started k) := by
      rw [← List.singleton_append, List.count_append, List.count_append, hLastStarts, Nat.add_zero]
    rw [hRuns, h.runs, getElem?_runs_start, Option.map_map, hStarts]
    simp only [Function.comp_def, Nat.add_assoc]
  slots k := by
    by_cases hk : k = i
    · rw [hk]
      exact hSlot
    · rw [hOther k hk]
      exact (h.slots k).around hk hLast
  unchanged d hMem := by
    rcases hLast with rfl | rfl <;> simp [h.unchanged d] at hMem

theorem Advances.failed (hEmpty : m.isFilled i = false) (h : (m.start i).Advances events m') :
    m.Advances (.started i :: (events ++ [.failed i])) m' := by
  refine h.calculation (.inr rfl) rfl rfl rfl (fun _ _ => rfl) ?_
  have hSlot := h.slots i
  rw [isFilled_start, hEmpty] at hSlot
  rw [hEmpty]
  exact hSlot.failed

theorem Advances.filled (hEmpty : m.isFilled i = false) (hi : i < m.slots.length)
    (h : (m.start i).Advances events m') (hStill : m'.isFilled i = false) (v : ν) :
    m.Advances (.started i :: (events ++ [.evaluated i])) (m'.fill i v) := by
  have hFilled := isFilled_fill (Nat.lt_of_lt_of_eq hi h.length.symm) v
  refine h.calculation (.inl rfl) rfl (length_fill m' i v) rfl (fun k hk => ?_) ?_
  · rw [hFilled, decide_eq_false hk, Bool.false_or]
  · have hSlot := h.slots i
    rw [isFilled_start, hEmpty, hStill] at hSlot
    rw [hEmpty, hFilled, decide_eq_true rfl]
    exact hSlot.filled

end

end Memo

variable [ElementFamily α]

/-! ### Events of evaluations -/

/-- The events of a calculation, given how slots are evaluated and the events of that. -/
def Calculation.events
    (eval : Nat → Memo α (Value α) → Except EvalError (Value α) × Memo α (Value α))
    (trace : Nat → Memo α (Value α) → List SlotEvent) :
    Calculation α → Memo α (Value α) → List SlotEvent
  | done _, _ => []
  | fail, _ => []
  | .eval i next, m =>
    trace i m ++
      match eval i m with
      | (.ok v, m) => (next v).events eval trace m
      | (.error _, _) => []
  | update i change next, m => next.events eval trace (m.update i change)

namespace Memo

/-- The events of the evaluation of a slot with at most `depth` calculations inside of each
other. -/
def eventsWithin (entries : List (Entry α)) :
    (depth : Nat) → Nat → Memo α (Value α) → List SlotEvent
  | 0, _, _ => []
  | depth + 1, i, m =>
    match entries[i]? with
    | none => []
    | some entry =>
      if m.isFilled i then [.evaluated i]
      else
        let inside := (entry.calculation m.motion).events (evalWithin entries depth)
          (eventsWithin entries depth) (m.start i)
        match (evalWithin entries (depth + 1) i m).1 with
        | .ok _ => .started i :: (inside ++ [.evaluated i])
        | .error _ => .started i :: (inside ++ [.failed i])

/-- The events of the evaluation of a slot. -/
def events (m : Memo α (Value α)) (entries : List (Entry α)) (i : Nat) : List SlotEvent :=
  eventsWithin entries (entries.length + 1) i m

/-- The contents after the evaluation of slots, one after the other. -/
def evalAll (m : Memo α (Value α)) (entries : List (Entry α)) (indices : List Nat) :
    Memo α (Value α) :=
  indices.foldl (fun m i => (m.eval entries i).2) m

/-- The events of the evaluation of slots, one after the other. -/
def eventsOfAll (m : Memo α (Value α)) (entries : List (Entry α)) : List Nat → List SlotEvent
  | [] => []
  | i :: indices => m.events entries i ++ (m.eval entries i).2.eventsOfAll entries indices

/-! ### Evaluations -/

variable {entries : List (Entry α)}

/-- The events of a calculation tell what it does, if those of the evaluation of slots do. -/
theorem advances_run {n : Nat}
    {eval : Nat → Memo α (Value α) → Except EvalError (Value α) × Memo α (Value α)}
    {trace : Nat → Memo α (Value α) → List SlotEvent}
    (hEval : ∀ i (m : Memo α (Value α)), m.slots.length = n →
      m.Advances (trace i m) (eval i m).2)
    (c : Calculation α) {m : Memo α (Value α)} (hLength : m.slots.length = n) :
    m.Advances (c.events eval trace m) (c.run eval m).2 := by
  induction c generalizing m with
  | done v => exact .refl m
  | fail => exact .refl m
  | eval i next ih =>
      have hFirst := hEval i m hLength
      rw [Calculation.events, Calculation.run]
      generalize eval i m = outcome at hFirst ⊢
      obtain ⟨result, m'⟩ := outcome
      cases result with
      | ok v => exact hFirst.trans (ih v (hFirst.length.trans hLength))
      | error e => simpa using hFirst
  | update i change next ih =>
      have hChange : m.Advances [] (m.update i change) :=
        .of_isFilled rfl (List.length_modify _ _ _) rfl (isFilled_update m i change)
      exact hChange.trans (ih (hChange.length.trans hLength))

/-- The events of an evaluation tell what it does. -/
theorem advances_evalWithin (depth i : Nat) {m : Memo α (Value α)}
    (hLength : m.slots.length = entries.length) :
    m.Advances (eventsWithin entries depth i m) (evalWithin entries depth i m).2 := by
  induction depth generalizing i m with
  | zero => exact .refl m
  | succ depth ih =>
      cases hEntry : entries[i]? with
      | none =>
          rw [eventsWithin, evalWithin, hEntry]
          exact .refl m
      | some entry =>
          cases hSlot : m.slot? i with
          | some v =>
              have hFilled : m.isFilled i = true := by rw [isFilled, hSlot]; rfl
              rw [evalWithin_filled depth hEntry hSlot, eventsWithin, hEntry]
              simp only [hFilled, if_true]
              exact .read hFilled
          | none =>
              have hEmpty : m.isFilled i = false := by rw [isFilled, hSlot]; rfl
              have hi : i < m.slots.length :=
                hLength ▸ (List.getElem?_eq_some_iff.mp hEntry).1
              have hInside := advances_run (fun i m => ih i) (entry.calculation m.motion)
                (m := m.start i) hLength
              rw [eventsWithin, evalWithin, hEntry]
              simp only [hSlot, hEmpty, Bool.false_eq_true, if_false]
              generalize (entry.calculation m.motion).run (evalWithin entries depth)
                (m.start i) = outcome at hInside ⊢
              obtain ⟨result, m'⟩ := outcome
              cases result with
              | error e => exact hInside.failed hEmpty
              | ok v =>
                  cases hStill : m'.isFilled i with
                  | true => simpa [hStill] using hInside.failed hEmpty
                  | false => simpa [hStill] using hInside.filled hEmpty hi hStill v

/-- An evaluation that gives a value has an event that says so. -/
theorem evaluated_mem_eventsWithin {depth i : Nat} {m : Memo α (Value α)} {v : Value α}
    (h : (evalWithin entries depth i m).1 = .ok v) :
    .evaluated i ∈ eventsWithin entries depth i m := by
  cases depth with
  | zero => cases h
  | succ depth =>
      cases hEntry : entries[i]? with
      | none =>
          rw [evalWithin, hEntry] at h
          cases h
      | some entry =>
          rw [eventsWithin, hEntry]
          simp only [h]
          split
          · exact List.mem_singleton_self _
          · simp

/-- The events of evaluations one after the other tell what they do. -/
theorem advances_evalAll (indices : List Nat) {m : Memo α (Value α)}
    (hLength : m.slots.length = entries.length) :
    m.Advances (m.eventsOfAll entries indices) (m.evalAll entries indices) := by
  induction indices generalizing m with
  | nil => exact .refl m
  | cons i indices ih =>
      have hFirst : m.Advances (m.events entries i) (m.eval entries i).2 :=
        advances_evalWithin (entries.length + 1) i hLength
      exact hFirst.trans (ih (hFirst.length.trans hLength))

end Memo

end Elastodynamics
