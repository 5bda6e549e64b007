import Elastodynamics.Proofs.State.Trace
import Elastodynamics.Proofs.Workspace.Reachable
/-!
Exact invalidation. A change of partitions empties the slots that depend on them and no others, and
only the evaluation of a slot fills it. So the history of a state tells which slots are filled, and
between two events that empty a slot its calculation gives a value at most once: it is started again
only after it has failed.
-/
namespace Elastodynamics

open Sparse

variable {α : Type} [Scalar α] [ElementFamily α]

/-! ### Evaluation of models -/

namespace Model

/-- The slots that the evaluation of a model asks for, one after the other. -/
def requests : Model α → List Nat
  | typed _ => [0]
  | composite _ _ _ => [1, 2, 3, 0]

/-- The slots that the evaluation of a tangent matrix asks for. If all weights are zero, nothing is
computed from the data of elements. -/
def tangentRequests : Model α → Weights α → List Nat
  | typed _, w => if w.isZero then [] else [0]
  | composite _ _ _, _ => [1, 2, 3, 0]

end Model

omit [Scalar α] in
/-- The states of bodies are evaluated after the slot of each partition. -/
theorem System.evalBodies_snd (s : System α) (memo : Memo α (Value α)) :
    (s.evalBodies memo).2 = memo.evalAll s.entries [1, 2, 3, 0] := by
  show _ = (([1, 2, 3].foldl (fun memo i => (memo.eval s.entries i).2) memo).eval s.entries 0).2
  rw [evalBodies]
  split
  · next h => rw [h]
  · next h => rw [h]

namespace Model

variable {m : Model α} {bodies : List (Model α)} {memo : Memo α (Value α)}

/-- The evaluation of bodies in coherent contents fills the slot of the bodies and is explained by
its events; the states of the bodies may change in place afterwards. -/
theorem advances_bodies (h : memo.HoldsBodies (3 * totalNodes bodies) (CoherentAll bodies))
    (id : SystemId) (v : Value α) :
    let system := System.ofBodies id (systems bodies)
    memo.Advances (memo.eventsOfAll system.entries [1, 2, 3, 0])
      ((system.evalBodies memo).2.fill 0 v) := by
  intro system
  have hEvaluated : memo.Advances (memo.eventsOfAll system.entries [1, 2, 3, 0])
      (memo.evalAll system.entries [1, 2, 3, 0]) :=
    Memo.advances_evalAll [1, 2, 3, 0] h.length
  obtain ⟨memo', _, hEval, hHeld, _, hSynced, _⟩ := h.evalBodies id
  have hResult : memo.evalAll system.entries [1, 2, 3, 0] = memo' := by
    rw [← system.evalBodies_snd, hEval]
  have hFilled : memo'.isFilled 0 = true := by
    have hPerformed := hSynced .positions
    rw [Memo.synced, Memo.isFilled] at hPerformed
    obtain ⟨v, hv⟩ := Option.isSome_iff_exists.mp hPerformed
    exact (hHeld.performed .positions v hv).2
  have hFill : memo'.Advances [] (memo'.fill 0 v) := by
    refine .of_isFilled rfl (Memo.length_fill memo' 0 v) rfl fun k => ?_
    rw [Memo.isFilled_fill (by rw [hHeld.length]; decide)]
    by_cases hk : k = 0
    · rw [hk, hFilled]
      rfl
    · rw [decide_eq_false hk, Bool.false_or]
  rw [system.evalBodies_snd, hResult]
  rw [hResult] at hEvaluated
  simpa using hEvaluated.trans hFill

/-- The evaluation of a residual is explained by the events of the slots that it asks for. -/
theorem advances_residual (h : m.Coherent memo) (r : Array α) :
    memo.Advances (memo.eventsOfAll m.system.entries m.requests) (m.residual memo r).1 := by
  cases m with
  | typed m =>
      rw [requests, residual, system]
      exact Memo.advances_evalAll [0] (coherent_typed.mp h).length
  | composite id P bodies =>
      rw [requests, residual, system]
      exact advances_bodies (coherent_composite.mp h) id _

theorem advances_tangent (h : m.Coherent memo) (w : Weights α) (A : BlockMatrix α) :
    memo.Advances (memo.eventsOfAll m.system.entries (m.tangentRequests w))
      (m.tangent memo w A).1 := by
  cases m with
  | typed m =>
      rw [tangentRequests, tangent, TypedModel.tangent, system]
      split
      · exact .refl memo
      · have hData : memo.Advances (memo.eventsOfAll m.system.entries [0])
            (m.evalElements memo).2 :=
          Memo.advances_evalAll [0] (coherent_typed.mp h).length
        dsimp only
        split
        · exact hData
        · exact hData
  | composite id P bodies =>
      rw [tangentRequests, tangent, system]
      dsimp only
      split
      · exact advances_bodies (coherent_composite.mp h) id _
      · exact advances_bodies (coherent_composite.mp h) id _

theorem advances_energy (h : m.Coherent memo) :
    memo.Advances (memo.eventsOfAll m.system.entries m.requests) (m.energy memo).1 := by
  cases m with
  | typed m =>
      rw [requests, energy, system]
      exact Memo.advances_evalAll [0] (coherent_typed.mp h).length
  | composite id P bodies =>
      rw [requests, energy, system]
      exact advances_bodies (coherent_composite.mp h) id _

end Model

/-! ### Operations -/

namespace Operation

/-- The slots that an operation asks for, one after the other. -/
def requests (s : State α) : Operation α → List Nat
  | evalSlot i => [i]
  | calcResidual m r => if (m.checkResidual s.contents r).isOk then m.requests else []
  | calcTangent m w A => if (m.checkTangent s.contents A).isOk then m.tangentRequests w else []
  | calcEnergy m => if (m.checkEnergy s.contents).isOk then m.requests else []
  | _ => []

/-- The events of an operation on a state. A setter that rejects its vector has none. -/
def events (s : State α) : Operation α → List SlotEvent
  | set p x => if x.size = s.numDofs then [.changed (.single p)] else []
  | modify p _ => [.changed (.single p)]
  | invalidate changed => [.changed changed]
  | op => s.memo.eventsOfAll s.system.entries (op.requests s)

end Operation

namespace State

variable {s s' : State α}

/-- What a change of partitions leaves of a state: the other partitions are as they were, and of the
slots exactly those that depend on a changed one are emptied. -/
structure Changed (s : State α) (partitions : Dependencies) (s' : State α) : Prop where
  system : s'.system = s.system
  motion : ∀ p, partitions.has p = false → s'.motion.get p = s.motion.get p
  slots : ∀ k, s'.memo.slot? k =
    if s.system.dependencies[k]?.any (·.intersects partitions) then none else s.memo.slot? k
  runs : s'.memo.runs = s.memo.runs
  length : s'.memo.slots.length = s.memo.slots.length

omit [Scalar α] in
theorem changed_write (s : State α) (p : Partition) (x : Array α) :
    s.Changed (.single p) { s with memo := s.memo.write s.system.dependencies p x } where
  system := rfl
  motion q hq := by
    rw [Dependencies.has_single, decide_eq_false_iff_not] at hq
    show (s.memo.motion.set p x).get q = s.memo.motion.get q
    rw [Motion.get_set, if_neg hq]
  slots k := Memo.slot?_invalidate _ _ _ k
  runs := rfl
  length := Memo.length_invalidate _ _ _

omit [Scalar α] in
theorem changed_invalidate (s : State α) (partitions : Dependencies) :
    s.Changed partitions (s.invalidate partitions) where
  system := rfl
  motion _ _ := rfl
  slots k := Memo.slot?_invalidate _ _ _ k
  runs := rfl
  length := Memo.length_invalidate _ _ _

end State

/-- An operation, other than a copy, is a change of partitions or is explained by the events of the
slots that it asks for. A state of another model is rejected, so only the model of the state has to
know its contents. -/
theorem Operation.effect {op : Operation α} {s : State α} (hSame : op ≠ .clone)
    (hLength : s.memo.slots.length = s.system.entries.length)
    (hModel : ∀ m, op.model? = some m → s.system.id = m.systemId →
      s.system = m.system ∧ m.Coherent s.memo) :
    (∃ partitions, op.events s = [.changed partitions] ∧ s.Changed partitions (op.apply s)) ∨
      s.memo.Advances (op.events s) (op.apply s).memo := by
  cases op with
  | set p x =>
      rw [events, apply, State.set]
      by_cases hSize : x.size = s.numDofs
      · rw [if_pos hSize, if_pos hSize]
        exact .inl ⟨_, rfl, s.changed_write p x⟩
      · rw [if_neg hSize, if_neg hSize]
        exact .inr (.refl s.memo)
  | modify p f => exact .inl ⟨_, rfl, s.changed_write p _⟩
  | invalidate partitions => exact .inl ⟨_, rfl, s.changed_invalidate partitions⟩
  | evalSlot i => exact .inr (Memo.advances_evalAll [i] hLength)
  | clone => exact absurd rfl hSame
  | calcResidual m r =>
      right
      show s.memo.Advances (s.memo.eventsOfAll s.system.entries
        (if (m.checkResidual s.contents r).isOk then m.requests else [])) _
      rw [apply, Model.calcResidual]
      cases hCheck : m.checkResidual s.contents r with
      | error e => exact .refl s.memo
      | ok u =>
          obtain ⟨_, hState, _⟩ := bind_eq_ok_iff.mp hCheck
          obtain ⟨hSystem, hCoherent⟩ := hModel m rfl (Model.checkState_eq_ok_iff.mp hState).1
          rw [hSystem]
          exact Model.advances_residual hCoherent r
  | calcTangent m w A =>
      right
      show s.memo.Advances (s.memo.eventsOfAll s.system.entries
        (if (m.checkTangent s.contents A).isOk then m.tangentRequests w else [])) _
      rw [apply, Model.calcTangent]
      cases hCheck : m.checkTangent s.contents A with
      | error e => exact .refl s.memo
      | ok u =>
          obtain ⟨_, hState, _⟩ := bind_eq_ok_iff.mp hCheck
          obtain ⟨hSystem, hCoherent⟩ := hModel m rfl (Model.checkState_eq_ok_iff.mp hState).1
          rw [hSystem]
          exact Model.advances_tangent hCoherent w A
  | calcEnergy m =>
      right
      show s.memo.Advances (s.memo.eventsOfAll s.system.entries
        (if (m.checkEnergy s.contents).isOk then m.requests else [])) _
      rw [apply, Model.calcEnergy]
      cases hCheck : m.checkEnergy s.contents with
      | error e => exact .refl s.memo
      | ok u =>
          obtain ⟨hSystem, hCoherent⟩ := hModel m rfl (Model.checkState_eq_ok_iff.mp hCheck).1
          rw [hSystem]
          exact Model.advances_energy hCoherent

/-! ### Histories -/

namespace State

/-- Whether nothing has been done to a state since it was made, as a new one or as a copy. -/
def IsNew (s : State α) : Prop := s.memo = .fresh s.motion s.system.entries.length

/-- The state after operations, one after the other. -/
def run (s : State α) (ops : List (Operation α)) : State α :=
  ops.foldl (fun s op => op.apply s) s

/-- The events of operations, one after the other. -/
def history (s : State α) : List (Operation α) → List SlotEvent
  | [] => []
  | op :: ops => op.events s ++ (op.apply s).history ops

/-- That events, which began with a new state, tell which slots of a state are filled and how often
calculations have been started. -/
structure ToldBy (s : State α) (events : List SlotEvent) : Prop where
  length : s.memo.slots.length = s.system.entries.length
  runs : ∀ k, k < s.system.entries.length →
    s.memo.runs[k]? = some (events.count (.started k))
  slots : ∀ k entry, s.system.entries[k]? = some entry →
    SlotEvent.Accounts k false (SlotEvent.since entry.dependencies events) (s.isUpToDate k)

variable {s s' : State α} {events events' : List SlotEvent}

omit [Scalar α] in
theorem IsNew.isUpToDate (h : s.IsNew) (k : Nat) : s.isUpToDate k = false := by
  rw [State.isUpToDate, Memo.isFilled, h, Memo.slot?_fresh]
  rfl

omit [Scalar α] in
theorem IsNew.toldBy (h : s.IsNew) : s.ToldBy [] where
  length := by
    rw [h]
    exact List.length_replicate
  runs k hk := by
    rw [h]
    exact List.getElem?_replicate_of_lt hk
  slots k entry _ := by
    rw [h.isUpToDate]
    exact .nil k false

omit [Scalar α] in
theorem ToldBy.changed {partitions : Dependencies} (h : s.ToldBy events)
    (h' : s.Changed partitions s') : s'.ToldBy (events ++ [.changed partitions]) where
  length := by rw [h'.length, h'.system, h.length]
  runs k hk := by
    rw [h'.system] at hk
    rw [h'.runs, h.runs k hk, List.count_append]
    simp
  slots k entry hEntry := by
    rw [h'.system] at hEntry
    have hDependencies : s.system.dependencies[k]? = some entry.dependencies := by
      rw [System.dependencies, List.getElem?_map, hEntry]
      rfl
    have hSlot := h'.slots k
    rw [hDependencies, Option.any_some] at hSlot
    rw [SlotEvent.since_concat, SlotEvent.empties, isUpToDate, Memo.isFilled, hSlot]
    split
    · exact .nil k false
    · exact (h.slots k entry hEntry).trans (.changed partitions)

omit [Scalar α] in
/-- What events tell of a slot, in full. -/
theorem ToldBy.slot (h : s.ToldBy events) {k : Nat} {entry : Entry α}
    (hEntry : s.system.entries[k]? = some entry) :
    let since := SlotEvent.since entry.dependencies events
    (s.isUpToDate k = true ↔ .evaluated k ∈ since) ∧
    since.count (.started k) = since.count (.failed k) + (if s.isUpToDate k then 1 else 0) ∧
    (∀ before after, since = before ++ .evaluated k :: after → .started k ∉ after) ∧
    s.memo.runs[k]? = some (events.count (.started k)) ∧
    (entry.dependencies = .none → since = events) := by
  intro since
  have hSlot := h.slots k entry hEntry
  refine ⟨?_, ?_, hSlot.settled, h.runs k (List.getElem?_eq_some_iff.mp hEntry).1, fun hNone => ?_⟩
  · simpa using hSlot.filled_iff
  · simpa using hSlot.starts
  · show SlotEvent.since entry.dependencies events = events
    rw [hNone, SlotEvent.since_none]

omit [Scalar α] in
/-- There is nothing in slots that do not exist. -/
theorem ToldBy.of_none (h : s.ToldBy events) {k : Nat} (hEntry : s.system.entries[k]? = none) :
    s.isUpToDate k = false := by
  have hSlot : s.memo.slot? k = none := by
    rw [Memo.slot?, List.getElem?_eq_none (h.length ▸ List.getElem?_eq_none_iff.mp hEntry)]
    rfl
  rw [isUpToDate, Memo.isFilled, hSlot]
  rfl

theorem system_run (s : State α) (ops : List (Operation α)) : (s.run ops).system = s.system := by
  induction ops generalizing s with
  | nil => rfl
  | cons op ops ih => exact (ih (op.apply s)).trans (op.system_apply s)

omit [Scalar α] in
/-- A setter writes, or rejects its vector for its length. -/
theorem set_cases (s : State α) (p : Partition) (x : Array α) :
    (x.size = s.numDofs → ∃ s', s.set p x = .ok s' ∧ s.Changed (.single p) s' ∧
      s'.motion.get p = x) ∧
    (x.size ≠ s.numDofs → s.set p x = .error (.sizeMismatch p.name s.numDofs x.size)) := by
  constructor
  · intro hSize
    refine ⟨_, if_pos hSize, s.changed_write p x, ?_⟩
    show (s.memo.motion.set p x).get p = x
    rw [Motion.get_set, if_pos rfl]
  · intro hSize
    exact if_neg hSize

omit [Scalar α] in
/-- Whatever type is asked for, the slot is evaluated. -/
theorem tryEval_snd {β : Type} (read : Value α → Option β) (s : State α) (k : Nat) :
    (State.tryEval read s k).2 = (s.evalSlot k).2 := by
  rw [tryEval]
  split
  · next h => rw [h]
  · next h => rw [h]
  · next h => rw [h]

omit [Scalar α] in
theorem ToldBy.advances (h : s.ToldBy events) {memo : Memo α (Value α)}
    (h' : s.memo.Advances events' memo) :
    State.ToldBy { s with memo } (events ++ events') where
  length := h'.length.trans h.length
  runs k hk := by
    show memo.runs[k]? = _
    rw [h'.runs, h.runs k hk, List.count_append]
    rfl
  slots k entry hEntry := by
    have hKept : ∀ e ∈ events', SlotEvent.empties entry.dependencies e = false := by
      intro e he
      cases e with
      | changed d => exact absurd he (h'.unchanged d)
      | started i => rfl
      | evaluated i => rfl
      | failed i => rfl
    rw [SlotEvent.since_append hKept]
    exact (h.slots k entry hEntry).trans (h'.slots k)

end State

/-- Whether an operation may be done to a state of a program: the models it evaluates are models of
the program. A copy is no operation on a state, as it makes another one. -/
structure Workspace.Permits (W : Workspace α) (op : Operation α) : Prop where
  same : op ≠ .clone
  model : ∀ m, op.model? = some m → m ∈ W.models

namespace Workspace

variable {W W' : Workspace α} {s : State α}

omit [Scalar α] in
/-- More models permit more operations. -/
theorem Permits.mono {op : Operation α} (h : W.Permits op)
    (hModels : ∀ m ∈ W.models, m ∈ W'.models) : W'.Permits op :=
  ⟨h.same, fun m hm => hModels m (h.model m hm)⟩

/-- The events go on to tell what is in the slots after an operation. -/
theorem Sound.toldBy (hW : W.Sound) (hState : s ∈ W.states) {op : Operation α}
    (hOp : W.Permits op) {events : List SlotEvent} (h : s.ToldBy events) :
    (op.apply s).ToldBy (events ++ op.events s) := by
  have hModel (m : Model α) (hm : op.model? = some m) (hId : s.system.id = m.systemId) :
      s.system = m.system ∧ m.Coherent s.memo :=
    hW.coherent m (hOp.model m hm) s hState hId
  rcases op.effect hOp.same h.length hModel with ⟨partitions, hEvents, hChanged⟩ | hAdvances
  · rw [hEvents]
    exact h.changed hChanged
  · have hResult : op.apply s = { s with memo := (op.apply s).memo } := by
      rw [← op.system_apply s]
    rw [hResult]
    exact h.advances hAdvances

/-- The history of a state tells what is in its slots, whatever operations are done to it. -/
theorem Reachable.toldBy_run (hW : W.Reachable) (hState : s ∈ W.states) {ops : List (Operation α)}
    (hOps : ∀ op ∈ ops, W.Permits op) {events : List SlotEvent} (h : s.ToldBy events) :
    (s.run ops).ToldBy (events ++ s.history ops) := by
  induction ops generalizing W s events with
  | nil =>
      rw [State.history, List.append_nil]
      exact h
  | cons op ops ih =>
      obtain ⟨hOp, hRest⟩ := List.forall_mem_cons.mp hOps
      have hNext := hW.step (.operate W hState op hOp.model)
      rw [State.history, ← List.append_assoc]
      exact ih hNext List.mem_cons_self (fun op hMem => (hRest op hMem).mono fun _ h => h)
        (hW.sound.toldBy hState hOp h)

/-- Every state of a program comes from a new one by operations. -/
theorem Reachable.exists_new (hW : W.Reachable) (hState : s ∈ W.states) :
    ∃ s₀ ∈ W.states, s₀.IsNew ∧ ∃ ops, (∀ op ∈ ops, W.Permits op) ∧ s = s₀.run ops := by
  induction hW generalizing s with
  | start ids => cases hState
  | @step W W' prior last ih =>
      -- what was made earlier is still there
      have hOld (hMem : s ∈ W.states) (hModels : ∀ m ∈ W.models, m ∈ W'.models)
          (hStates : ∀ s ∈ W.states, s ∈ W'.states) :
          ∃ s₀ ∈ W'.states, s₀.IsNew ∧ ∃ ops, (∀ op ∈ ops, W'.Permits op) ∧ s = s₀.run ops := by
        obtain ⟨s₀, hMem₀, hNew, ops, hOps, hRun⟩ := ih hMem
        exact ⟨s₀, hStates s₀ hMem₀, hNew, ops, fun op hop => (hOps op hop).mono hModels, hRun⟩
      cases last with
      | newModel κ config =>
          exact hOld hState (fun m hm => List.mem_cons_of_mem _ hm) fun _ h => h
      | session hModel hCommands =>
          exact hOld hState (fun m hm => List.mem_cons_of_mem _ hm) fun _ h => h
      | compose hBodies hResult =>
          exact hOld hState (fun m hm => List.mem_cons_of_mem _ hm) fun _ h => h
      | declare referencePositions entries =>
          rcases List.mem_cons.mp hState with rfl | hMem
          · exact ⟨_, List.mem_cons_self, rfl, [], nofun, rfl⟩
          · exact hOld hMem (fun m hm => hm) fun _ h => List.mem_cons_of_mem _ h
      | makeState hModel =>
          rcases List.mem_cons.mp hState with rfl | hMem
          · exact ⟨_, List.mem_cons_self, rfl, [], nofun, rfl⟩
          · exact hOld hMem (fun m hm => hm) fun _ h => List.mem_cons_of_mem _ h
      | @operate s' hState' op hModel =>
          rcases List.mem_cons.mp hState with rfl | hMem
          · by_cases hClone : op = .clone
            · subst hClone
              exact ⟨_, List.mem_cons_self, rfl, [], nofun, rfl⟩
            · obtain ⟨s₀, hMem₀, hNew, ops, hOps, hRun⟩ := ih hState'
              refine ⟨s₀, List.mem_cons_of_mem _ hMem₀, hNew, ops ++ [op], ?_, ?_⟩
              · intro op' hop'
                rcases List.mem_append.mp hop' with hop' | hop'
                · exact (hOps op' hop').mono fun _ h => h
                · rw [List.mem_singleton.mp hop']
                  exact ⟨hClone, hModel⟩
              · rw [State.run, List.foldl_append, hRun]
                rfl
          · exact hOld hMem (fun m hm => hm) fun _ h => List.mem_cons_of_mem _ h

/-- A program may do any operations to a state, one after the other. -/
theorem Reachable.exists_run (hW : W.Reachable) (hState : s ∈ W.states) {ops : List (Operation α)}
    (hOps : ∀ op ∈ ops, W.Permits op) :
    ∃ W' : Workspace α, W'.Reachable ∧ W'.models = W.models ∧ s.run ops ∈ W'.states := by
  induction ops generalizing W s with
  | nil => exact ⟨W, hW, rfl, hState⟩
  | cons op ops ih =>
      obtain ⟨hOp, hRest⟩ := List.forall_mem_cons.mp hOps
      have hNext := hW.step (.operate W hState op hOp.model)
      obtain ⟨W', hW', hModels, hRun⟩ :=
        ih hNext List.mem_cons_self fun op hMem => (hRest op hMem).mono fun _ h => h
      exact ⟨W', hW', hModels, hRun⟩

/-- **Exact invalidation.** Every state of a program comes from a new one by operations, and for any
operations on a new state the following holds. A slot is filled exactly if it has been evaluated,
by whatever operation or calculation, since the last change of a partition that it depends on. Since
that change its calculation was started once for each time it failed, and once more if the slot is
filled; it was not started again after it had given a value. Nothing empties a slot without
dependencies.

A write replaces one partition and empties the slots that depend on it, and changes nothing else; a
vector of the wrong length changes nothing at all. An evaluation that gives a value is an event of
its slot, and the type of the value that is asked for does not matter. A copy has the motion and the
system of the state and no filled slot. In a state of a composite model, the slot of a partition is
filled only if that of the bodies is. -/
theorem invalidation_exact (hW : W.Reachable) :
    (∀ s ∈ W.states, ∃ s₀ ∈ W.states, s₀.IsNew ∧ ∃ ops, (∀ op ∈ ops, W.Permits op) ∧
      s = s₀.run ops) ∧
    (∀ s ∈ W.states, s.IsNew → ∀ ops, (∀ op ∈ ops, W.Permits op) →
      (∀ k, s.system.entries[k]? = none → (s.run ops).isUpToDate k = false) ∧
      ∀ k entry, s.system.entries[k]? = some entry →
        let since := SlotEvent.since entry.dependencies (s.history ops)
        ((s.run ops).isUpToDate k = true ↔ .evaluated k ∈ since) ∧
        since.count (.started k) =
          since.count (.failed k) + (if (s.run ops).isUpToDate k then 1 else 0) ∧
        (∀ before after, since = before ++ .evaluated k :: after → .started k ∉ after) ∧
        (s.run ops).memo.runs[k]? = some ((s.history ops).count (.started k)) ∧
        (entry.dependencies = .none → since = s.history ops)) ∧
    (∀ (s : State α) p x,
      (x.size = s.numDofs → ∃ s', s.set p x = .ok s' ∧ s.Changed (.single p) s' ∧
        s'.motion.get p = x) ∧
      (x.size ≠ s.numDofs → s.set p x = .error (.sizeMismatch p.name s.numDofs x.size) ∧
        (Operation.set p x).apply s = s)) ∧
    (∀ (s : State α) p f, s.Changed (.single p) (s.modify p f) ∧
      (s.modify p f).motion.get p = (s.motion.get p).mapIdx f) ∧
    (∀ (s : State α) partitions, s.Changed partitions (s.invalidate partitions) ∧
      (s.invalidate partitions).motion = s.motion) ∧
    (∀ (s : State α) k v, (s.evalSlot k).1 = .ok v →
      .evaluated k ∈ (Operation.evalSlot k).events s) ∧
    (∀ (s : State α) k {β : Type} (read : Value α → Option β),
      (State.tryEval read s k).2 = (s.evalSlot k).2 ∧
      (State.eval read s k).2 = (s.evalSlot k).2) ∧
    (∀ s : State α, s.clone.motion = s.motion ∧ s.clone.system = s.system ∧
      ∀ k, s.clone.isUpToDate k = false) ∧
    (∀ s ∈ W.states, ∀ id P bodies, .composite id P bodies ∈ W.models → s.system.id = id →
      ∀ p, s.isUpToDate (syncSlot p) = true → s.isUpToDate 0 = true) := by
  refine ⟨fun s hState => hW.exists_new hState, fun s hState hNew ops hOps => ?_,
    fun s p x => ?_, fun s p f => ?_, fun s partitions => ⟨s.changed_invalidate partitions, rfl⟩,
    fun s k v hValue => List.mem_append_left _ (Memo.evaluated_mem_eventsWithin hValue),
    fun s k β read => ⟨s.tryEval_snd read k, s.tryEval_snd read k⟩, fun s => ?_,
    fun s hState id P bodies hModel hId p hSynced => ?_⟩
  · have hTold := hW.toldBy_run hState hOps hNew.toldBy
    rw [List.nil_append] at hTold
    rw [← s.system_run ops]
    exact ⟨fun k => hTold.of_none, fun k entry => hTold.slot⟩
  · obtain ⟨hAccepted, hRejected⟩ := s.set_cases p x
    refine ⟨hAccepted, fun hSize => ⟨hRejected hSize, ?_⟩⟩
    rw [Operation.apply, hRejected hSize]
  · refine ⟨s.changed_write p _, ?_⟩
    show (s.memo.motion.set p _).get p = _
    rw [Motion.get_set, if_pos rfl]
  · have hNew : s.clone.IsNew := rfl
    exact ⟨rfl, rfl, hNew.isUpToDate⟩
  · obtain ⟨_, hCoherent⟩ := hW.sound.coherent _ hModel s hState hId
    obtain ⟨v, hv⟩ := Option.isSome_iff_exists.mp hSynced
    exact ((Model.coherent_composite.mp hCoherent).performed p v hv).2

/-- The state that a program may declare. -/
def declared (W : Workspace α) (referencePositions : Array α) (entries : List (Entry α)) :
    State α :=
  .ofSystem ⟨W.ids.fresh.1, referencePositions, entries⟩

/-- The number of positive coordinates, and a slot that doubles the value of the first one. It
fails, since this value is no scalar. -/
def mistypedEntries : List (Entry ℚ) :=
  [{ name := "a", dependencies := .single .positions,
     calculation := fun m => .done (.count (m.positions.toList.countP (0 < ·))) },
   { name := "b", dependencies := .single .positions,
     calculation := fun _ => .eval 0 fun v =>
       match v.scalar? with
       | some x => .done (.scalar (x + x))
       | none => .fail }]

/-- A state with these slots. -/
def mistypedState : State ℚ := pairWorkspace.declared #[1, 2, 3] mistypedEntries

/-- The second slot is evaluated before and after a change of velocities. -/
def mistypedOperations : List (Operation ℚ) :=
  [.evalSlot 1, .modify .velocities fun _ x => x + 1, .evalSlot 1]

/-- An energy of two bodies, new positions and velocities; then the bodies get the velocities. -/
def pairOperations : List (Operation ℚ) :=
  [.calcEnergy pair, .modify .positions fun i x => x * (i + 1),
   .modify .velocities fun _ x => x + 1, .evalSlot 2]

theorem permits_mistyped {W : Workspace ℚ} : ∀ op ∈ mistypedOperations, W.Permits op := by
  intro op hop
  simp only [mistypedOperations, List.mem_cons, List.not_mem_nil, or_false] at hop
  rcases hop with rfl | rfl | rfl
  · exact ⟨nofun, nofun⟩
  · exact ⟨nofun, nofun⟩
  · exact ⟨nofun, nofun⟩

theorem permits_pair {W : Workspace ℚ} (hPair : pair ∈ W.models) :
    ∀ op ∈ pairOperations, W.Permits op := by
  intro op hop
  simp only [pairOperations, List.mem_cons, List.not_mem_nil, or_false] at hop
  rcases hop with rfl | rfl | rfl | rfl
  · exact ⟨nofun, fun m hm => Option.some.inj hm ▸ hPair⟩
  · exact ⟨nofun, nofun⟩
  · exact ⟨nofun, nofun⟩
  · exact ⟨nofun, nofun⟩

/-- The slot that fails is empty and has been started each time, while the slot that it reads has
been started once. In the state of two bodies, the copy of the velocities has been made twice and
that of the positions once; it is discarded, and the bodies are kept. -/
theorem invalidation_exact_mixed :
    (let s := mistypedState.run mistypedOperations
     s.isUpToDate 0 = true ∧ s.isUpToDate 1 = false ∧
       s.memo.runs[0]? = some 1 ∧ s.memo.runs[1]? = some 2) ∧
    (let s := pair.makeState.run pairOperations
     s.isUpToDate 1 = false ∧ s.isUpToDate 2 = true ∧
       s.memo.runs[1]? = some 1 ∧ s.memo.runs[2]? = some 2 ∧ s.isUpToDate 0 = true) := by
  have hDeclared := Reachable.step reachable_pair (.declare _ #[1, 2, 3] mistypedEntries)
  constructor
  · intro s
    obtain ⟨_, hHistory, _⟩ := invalidation_exact hDeclared
    obtain ⟨_, hSlots⟩ := hHistory mistypedState List.mem_cons_self rfl mistypedOperations
      permits_mistyped
    have hEvents : mistypedState.history mistypedOperations =
        [.started 1, .started 0, .evaluated 0, .failed 1, .changed (.single .velocities),
          .started 1, .evaluated 0, .failed 1] := by
      decide +kernel
    rw [hEvents] at hSlots
    obtain ⟨hRead, _, _, hReadRuns, _⟩ := hSlots 0 _ rfl
    obtain ⟨hFailed, _, _, hFailedRuns, _⟩ := hSlots 1 _ rfl
    refine ⟨hRead.mpr (by decide), ?_, hReadRuns, hFailedRuns⟩
    exact Bool.eq_false_iff.mpr fun h => absurd (hFailed.mp h) (by decide)
  · intro s
    have hModel : pair ∈ pairWorkspace.models := List.mem_cons_self
    have hState : pair.makeState ∈ pairWorkspace.states := List.mem_cons_self
    obtain ⟨W, hW, hModels, hRun⟩ := hDeclared.exists_run (List.mem_cons_of_mem _ hState)
      (permits_pair hModel)
    obtain ⟨_, _, _, _, _, _, _, _, hBodies⟩ := invalidation_exact hW
    obtain ⟨_, hHistory, _⟩ := invalidation_exact hDeclared
    obtain ⟨_, hSlots⟩ := hHistory _ (List.mem_cons_of_mem _ hState) rfl pairOperations
      (permits_pair hModel)
    have hEvents : pair.makeState.history pairOperations =
        [.started 1, .started 0, .evaluated 0, .evaluated 1, .started 2, .evaluated 0,
          .evaluated 2, .started 3, .evaluated 0, .evaluated 3, .evaluated 0,
          .changed (.single .positions), .changed (.single .velocities), .started 2,
          .evaluated 0, .evaluated 2] := by
      decide +kernel
    rw [hEvents] at hSlots
    obtain ⟨hPositions, _, _, hPositionsRuns, _⟩ := hSlots 1 _ rfl
    obtain ⟨hVelocities, _, _, hVelocitiesRuns, _⟩ := hSlots 2 _ rfl
    have hCopied : s.isUpToDate 2 = true := hVelocities.mpr (by decide)
    have hOwner : s.system.id = pair.systemId := congrArg System.id (pair.makeState.system_run _)
    refine ⟨?_, hCopied, hPositionsRuns, hVelocitiesRuns, ?_⟩
    · exact Bool.eq_false_iff.mpr fun h => absurd (hPositions.mp h) (by decide)
    · exact hBodies s hRun _ _ _ (hModels ▸ hModel) hOwner .velocities hCopied

/-- Starts of calculations that fail have to be counted apart: a failure leaves the slot empty, and
the next evaluation starts the calculation again, although no partition has changed. -/
theorem failed_calculation_restarts :
    ¬ ∀ W : Workspace ℚ, W.Reachable → ∀ s ∈ W.states, s.IsNew →
      ∀ ops, (∀ op ∈ ops, W.Permits op) → ∀ k entry, s.system.entries[k]? = some entry →
        (SlotEvent.since entry.dependencies (s.history ops)).count (.started k) ≤ 1 := by
  intro hAll
  have hDeclared := Reachable.step (.start ⟨0⟩) (.declare _ #[1, 2, 3] mistypedEntries)
  have hOnce := hAll _ hDeclared _ List.mem_cons_self rfl [.evalSlot 1, .evalSlot 1]
    (fun op hop => by
      simp only [List.mem_cons, List.not_mem_nil, or_false, or_self] at hop
      exact hop ▸ ⟨nofun, nofun⟩) 1 _ rfl
  exact absurd hOnce (by decide +kernel)

end Workspace

end Elastodynamics
