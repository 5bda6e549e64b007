import Elastodynamics.Proofs.Representation
/-!
Histories of programs. A program keeps its models and states at numbered places. A step makes
something at a new place or changes what is at a place, and leaves an event, which only says what
has happened to which place. From the events alone it is told which models share a system, and which
states descend from the system of a model. Identities play no part in that.
-/
namespace Elastodynamics

open Sparse

variable {α : Type} [Scalar α] [ElementFamily α]

/-! ### What a program keeps -/

/-- The identity as a machine word, in which it is kept and compared. -/
def SystemId.word (id : SystemId) : UInt64 := UInt64.ofNat id.index

/-- A model at its place in a program. -/
inductive Held (α : Type) [ElementFamily α] where
  /-- A model of elements, with everything that it stores. -/
  | typed {κ : Kind α} (m : StoredModel α κ)
  /-- A model made of bodies, which stays as it was made. -/
  | composed (m : Model α)

namespace Held

def toModel : Held α → Model α
  | typed m => .typed m.toModel
  | composed m => m

/-- The system that states of the model are made with. -/
def stateSystem : Held α → System α
  | typed m => m.stateSystem
  | composed m => m.system

/-- Whether what the model stores fits together. -/
def Consistent : Held α → Prop
  | typed m => m.Consistent
  | composed _ => True

theorem Consistent.system_toModel {m : Held α} (h : m.Consistent) :
    m.toModel.system = m.stateSystem := by
  cases m with
  | typed m =>
      rw [toModel, Model.system]
      exact (StoredModel.Consistent.system h).symm
  | composed m => rfl

theorem systemId_toModel (m : Held α) : m.toModel.systemId = m.stateSystem.id := by
  cases m with
  | typed m => rfl
  | composed m => exact m.id_system.symm

end Held

/-- The models and the states of a program at their places, the identities that have not been used,
and every system that has been made, the first one first. -/
structure Program (α : Type) [ElementFamily α] where
  ids : IdSupply
  systems : List (System α)
  models : List (Held α)
  states : List (State α)

/-! ### Events -/

/-- What a step has done, as far as places are concerned. New things get the next free place. -/
inductive Event where
  /-- A model has been made, without elements or of bodies. -/
  | modelMade
  /-- The model at place `k` has been built again. -/
  | modelBuilt (k : Nat)
  | modelCloned (k : Nat)
  /-- A state has been made for a system of its own. -/
  | stateDeclared
  /-- A state of the model at place `k` has been made. -/
  | stateMade (k : Nat)
  | stateCloned (j : Nat)
  /-- A builder has been dropped, or a state has been written or evaluated. -/
  | quiet
deriving DecidableEq

namespace Event

/-- The number of models after the given events, the last of which comes first. -/
def modelCount : List Event → Nat
  | [] => 0
  | .modelMade :: h => modelCount h + 1
  | .modelCloned _ :: h => modelCount h + 1
  | _ :: h => modelCount h

/-- The number of states after the given events. -/
def stateCount : List Event → Nat
  | [] => 0
  | .stateDeclared :: h => stateCount h + 1
  | .stateMade _ :: h => stateCount h + 1
  | .stateCloned _ :: h => stateCount h + 1
  | _ :: h => stateCount h

/-- The models at two places share their system: they are the same model, or one comes from the
other by copies, and neither has been built since. -/
inductive Shares : List Event → Nat → Nat → Prop where
  | self {h : List Event} {i : Nat} (hMade : i < modelCount h) : Shares h i i
  | kept {e : Event} {h : List Event} {i j : Nat} (prior : Shares h i j)
      (hFirst : e ≠ .modelBuilt i) (hSecond : e ≠ .modelBuilt j) : Shares (e :: h) i j
  | toClone {h : List Event} {i k : Nat} (prior : Shares h i k) :
      Shares (.modelCloned k :: h) i (modelCount h)
  | fromClone {h : List Event} {j k : Nat} (prior : Shares h k j) :
      Shares (.modelCloned k :: h) (modelCount h) j

/-- The state at place `j` descends, through clones and writes, from one that was made of a model
which shares the present system of the model at place `i`. -/
inductive Descends : List Event → Nat → Nat → Prop where
  | made {h : List Event} {i k : Nat} (hShares : Shares h k i) :
      Descends (.stateMade k :: h) (stateCount h) i
  | kept {e : Event} {h : List Event} {i j : Nat} (prior : Descends h j i)
      (hModel : e ≠ .modelBuilt i) : Descends (e :: h) j i
  | clonedState {h : List Event} {i j : Nat} (prior : Descends h j i) :
      Descends (.stateCloned j :: h) (stateCount h) i
  | clonedModel {h : List Event} {j k : Nat} (prior : Descends h j k) :
      Descends (.modelCloned k :: h) j (modelCount h)

variable {h : List Event} {i j : Nat}

theorem modelCount_le (e : Event) (h : List Event) : modelCount h ≤ modelCount (e :: h) := by
  cases e <;> simp [modelCount]

theorem stateCount_le (e : Event) (h : List Event) : stateCount h ≤ stateCount (e :: h) := by
  cases e <;> simp [stateCount]

/-- Only models that exist share a system. -/
theorem Shares.lt (hShares : Shares h i j) : i < modelCount h ∧ j < modelCount h := by
  induction hShares with
  | self hMade => exact ⟨hMade, hMade⟩
  | @kept e h i j prior hFirst hSecond ih =>
      have := modelCount_le e h
      omega
  | toClone prior ih =>
      simp only [modelCount]
      omega
  | fromClone prior ih =>
      simp only [modelCount]
      omega

theorem Descends.lt (hDescends : Descends h j i) : j < stateCount h ∧ i < modelCount h := by
  induction hDescends with
  | made hShares => exact ⟨Nat.lt_succ_self _, hShares.lt.2⟩
  | @kept e h i j prior hModel ih =>
      have := modelCount_le e h
      have := stateCount_le e h
      omega
  | clonedState prior ih => exact ⟨Nat.lt_succ_self _, ih.2⟩
  | clonedModel prior ih => exact ⟨ih.1, Nat.lt_succ_self _⟩

end Event

/-! ### Steps -/

namespace Program

/-- A program that has not done anything yet. -/
def empty : Program α := ⟨⟨0⟩, [], [], []⟩

/-- A step of a program, with the event that it leaves. -/
inductive Step : Program α → Event → Program α → Prop where
  /-- A new model of elements makes two systems, of which it keeps the second one. -/
  | newModel (P : Program α) (κ : Kind α) (config : Config α) :
      Step P .modelMade { P with
        ids := (StoredModel.ofConfig (κ := κ) config P.ids).2
        systems := P.systems ++ [.ofNodes P.ids.fresh.1 #[],
          (StoredModel.ofConfig (κ := κ) config P.ids).1.stateSystem]
        models := P.models ++ [.typed (StoredModel.ofConfig (κ := κ) config P.ids).1] }
  /-- A session of a builder in which it is built. Elements can only be made in the ways that
  their kind knows. -/
  | build (P : Program α) {k : Nat} {κ : Kind α} {m : StoredModel α κ}
      (hModel : P.models[k]? = some (.typed m)) {commands : List (Command α κ)}
      (hCommands : ∀ c ∈ commands, c.Constructed) (hBuild : .build ∈ commands) :
      Step P (.modelBuilt k) { P with
        ids := (m.session commands P.ids).2
        systems := P.systems ++ [(m.session commands P.ids).1.stateSystem]
        models := P.models.set k (.typed (m.session commands P.ids).1) }
  /-- A session of a builder that is dropped without being built. -/
  | drop (P : Program α) {k : Nat} {κ : Kind α} {m : StoredModel α κ}
      (hModel : P.models[k]? = some (.typed m)) {commands : List (Command α κ)}
      (hCommands : ∀ c ∈ commands, c.Constructed) (hOpen : .build ∉ commands) :
      Step P .quiet { P with
        ids := (m.session commands P.ids).2
        models := P.models.set k (.typed (m.session commands P.ids).1) }
  | cloneModel (P : Program α) {k : Nat} {κ : Kind α} {m : StoredModel α κ}
      (hModel : P.models[k]? = some (.typed m)) :
      Step P (.modelCloned k) { P with models := P.models ++ [.typed m] }
  /-- A model made of bodies. The bodies stay at their places, where the program finds them
  again. -/
  | compose (P : Program α) {bodies : List (Held α)} (hBodies : ∀ b ∈ bodies, b ∈ P.models)
      {m : Model α} {ids : IdSupply}
      (hResult : Model.ofBodies (bodies.map Held.toModel) P.ids = (.ok m, ids)) :
      Step P .modelMade { P with
        ids, systems := P.systems ++ [m.system], models := P.models ++ [.composed m] }
  /-- A state of a system that belongs to no model. -/
  | declareState (P : Program α) (referencePositions : Array α) (entries : List (Entry α)) :
      Step P .stateDeclared { P with
        ids := P.ids.fresh.2
        systems := P.systems ++ [⟨P.ids.fresh.1, referencePositions, entries⟩]
        states := P.states ++ [.ofSystem ⟨P.ids.fresh.1, referencePositions, entries⟩] }
  | makeState (P : Program α) {k : Nat} {m : Held α} (hModel : P.models[k]? = some m) :
      Step P (.stateMade k) { P with states := P.states ++ [.ofSystem m.stateSystem] }
  | cloneState (P : Program α) {j : Nat} {s : State α} (hState : P.states[j]? = some s) :
      Step P (.stateCloned j) { P with states := P.states ++ [s.clone] }
  /-- A write to a state, accepted or rejected, or an evaluation, with any of the models. -/
  | operate (P : Program α) {j : Nat} {s : State α} (hState : P.states[j]? = some s)
      (op : Operation α)
      (hModel : ∀ m, op.model? = some m → ∃ held ∈ P.models, held.toModel = m) :
      Step P .quiet { P with states := P.states.set j (op.apply s) }

/-- Steps one after the other, with their events, the last of which comes first. -/
inductive Steps (P : Program α) : List Event → Program α → Prop where
  | refl : Steps P [] P
  | step {e : Event} {h : List Event} {Q R : Program α} (prior : Steps P h Q)
      (last : Step Q e R) : Steps P (e :: h) R

/-- A program that begins with nothing. -/
abbrev Run (h : List Event) (P : Program α) : Prop := Steps .empty h P

theorem Steps.trans {P Q R : Program α} {h later : List Event} (first : Steps P h Q)
    (second : Steps Q later R) : Steps P (later ++ h) R := by
  induction second with
  | refl => exact first
  | step prior last ih => exact .step ih last

end Program

/-! ### Sessions of stored models -/

variable {κ : Kind α}

theorem StoredModel.id_of_ingest {m m' : StoredModel α κ} {nodes : Array (Vec3 α)}
    {elements : Array (kind κ).Element} {ids ids' : IdSupply}
    (h : m.ingest nodes elements ids = (m', ids', .ok ())) : m'.stateSystem.id = ids.fresh.1 := by
  simp only [ingest] at h
  split at h
  · cases h
  · cases h
    rfl

namespace StoredBuilder

variable {b : StoredBuilder α κ}

theorem run_cons (b : StoredBuilder α κ) (ids : IdSupply) (c : Command α κ)
    (commands : List (Command α κ)) :
    b.run ids (c :: commands) = (b.execute ids c).1.run (b.execute ids c).2.1 commands :=
  rfl

theorem run_of_built (hBuilt : b.built = true) (ids : IdSupply) (commands : List (Command α κ)) :
    b.run ids commands = (b, ids) := by
  induction commands with
  | nil => rfl
  | cons c commands ih =>
      rw [run_cons, execute_of_built hBuilt]
      exact ih

/-- A builder leaves its model and the identities alone until it is built, and the build takes one
identity, for the new system of the model. -/
theorem Consistent.run_of_open (hb : b.Consistent) (hOpen : b.built = false) (ids : IdSupply)
    (commands : List (Command α κ)) :
    (.build ∉ commands → (b.run ids commands).1.model = b.model ∧ (b.run ids commands).2 = ids) ∧
    (.build ∈ commands → (b.run ids commands).1.model.stateSystem.id = ids.fresh.1 ∧
      (b.run ids commands).2 = ids.fresh.2) := by
  induction commands generalizing b with
  | nil => exact ⟨fun _ => ⟨rfl, rfl⟩, nofun⟩
  | cons c commands ih =>
      by_cases hc : c = .build
      · subst hc
        obtain ⟨m', hIngest, _⟩ := hb.model.ingest b.pendingNodes hb.staged ids
        have hBuild : b.build ids = (⟨m', #[], #[], true⟩, ids.fresh.2, .ok ()) := by
          rw [StoredBuilder.build, if_neg (hOpen ▸ Bool.false_ne_true), hIngest]
        have hRun : b.run ids (.build :: commands) = (⟨m', #[], #[], true⟩, ids.fresh.2) := by
          rw [run_cons, StoredBuilder.execute, hBuild]
          exact run_of_built rfl _ _
        rw [hRun]
        exact ⟨fun h => absurd List.mem_cons_self h,
          fun _ => ⟨StoredModel.id_of_ingest hIngest, rfl⟩⟩
      · obtain ⟨hIds, _⟩ := Builder.execute_of_open (b := b.toBuilder) hOpen ids hc
        obtain ⟨nodes, elements, hResult, _⟩ := execute_of_open hOpen ids hc
        have hNext := hb.execute ids c
        have hSame : (b.execute ids c).1.model = b.model := by rw [hResult]
        have hIds' : (b.execute ids c).2.1 = ids := by
          rw [execute_of_ne_build b ids hc]
          exact hIds
        have hOpen' : (b.execute ids c).1.built = false := by
          rw [hResult]
          exact hOpen
        have hRest := ih hNext hOpen'
        rw [run_cons, hIds', List.mem_cons, or_iff_right (Ne.symm hc), ← hSame]
        exact hRest

end StoredBuilder

/-- A session changes a model only if its builder is built, and then the model gets a system with
the next identity. -/
theorem StoredModel.Consistent.session_eq {m : StoredModel α κ} (hm : m.Consistent)
    (commands : List (Command α κ)) (ids : IdSupply) :
    (.build ∉ commands → m.session commands ids = (m, ids)) ∧
    (.build ∈ commands → (m.session commands ids).1.stateSystem.id = ids.fresh.1 ∧
      (m.session commands ids).2 = ids.fresh.2) := by
  have hRun := (StoredBuilder.consistent_ofModel hm).run_of_open rfl ids commands
  refine ⟨fun hOpen => ?_, hRun.2⟩
  obtain ⟨hModel, hIds⟩ := hRun.1 hOpen
  exact Prod.ext hModel hIds

end Elastodynamics
