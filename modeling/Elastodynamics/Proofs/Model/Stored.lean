import Elastodynamics.Proofs.Model.Session
/-!
Models as they are stored. A model keeps the system of its states and the index of the slot with the
data of its elements. When it is extended, the nodes and elements are appended first, then the
pattern is made, which might be rejected, and the system comes last. With the identity of the system
alone these are the models of elements, and their builders do the same with the same replies.
-/
namespace Elastodynamics

open Sparse

namespace System

variable {α : Type} [ElementFamily α]

/-- A system of nodes, without slots. -/
def ofNodes (id : SystemId) (nodes : Array (Vec3 α)) : System α where
  id := id
  referencePositions := Stacked.ofNodes nodes.toList
  entries := []

/-- The system with a further slot, and the index of that slot. -/
def declare (s : System α) (entry : Entry α) : System α × Nat :=
  ({ s with entries := s.entries ++ [entry] }, s.entries.length)

end System

/-- A model of elements of one kind, with everything that it keeps. -/
structure StoredModel (α : Type) [ElementFamily α] (κ : Kind α) where
  elements : Array (kind κ).Element
  referencePositions : Array (Vec3 α)
  pattern : Pattern
  config : Config α
  stateSystem : System α
  /-- The slot in which the data of the elements is looked up. -/
  elementDataSlot : Nat

/-- A stored model with nodes and elements that are staged to be added to it. -/
structure StoredBuilder (α : Type) [ElementFamily α] (κ : Kind α) where
  model : StoredModel α κ
  pendingNodes : Array (Vec3 α)
  pendingElements : Array (kind κ).Element
  built : Bool

variable {α : Type} [Scalar α] [ElementFamily α] {κ : Kind α}

/-! ### Models -/

namespace StoredModel

def numNodes (m : StoredModel α κ) : Nat := m.referencePositions.size

/-- The model without its system, of which only the identity is left. -/
def toModel (m : StoredModel α κ) : TypedModel α κ where
  elements := m.elements
  referencePositions := m.referencePositions
  pattern := m.pattern
  config := m.config
  systemId := m.stateSystem.id

/-- Replaces the system by a new one for the present nodes, with a slot for the present elements. -/
def renewSystem (m : StoredModel α κ) (ids : IdSupply) : StoredModel α κ × IdSupply :=
  let (id, ids) := ids.fresh
  let entry := TypedModel.elementDataEntry m.elements.toList
  let (stateSystem, elementDataSlot) := (System.ofNodes id m.referencePositions).declare entry
  ({ m with stateSystem, elementDataSlot }, ids)

/-- A model without nodes. It begins with a system without slots, which is replaced at once. -/
def ofConfig (config : Config α) (ids : IdSupply) : StoredModel α κ × IdSupply :=
  let (id, ids) := ids.fresh
  renewSystem ⟨#[], #[], .empty 0, config, .ofNodes id #[], 0⟩ ids

/-- Appends nodes and elements, and then replaces the pattern and the system. If the pattern is
rejected, the nodes and elements stay, with the old pattern and the old system. -/
def ingest (m : StoredModel α κ) (nodes : Array (Vec3 α)) (elements : Array (kind κ).Element)
    (ids : IdSupply) : StoredModel α κ × IdSupply × Except ModelError Unit :=
  let m := { m with
    referencePositions := m.referencePositions ++ nodes
    elements := m.elements ++ elements }
  match Pattern.ofElements m.numNodes
    (m.elements.toList.map fun e => ((kind κ).nodes e).toList) with
  | .error e => (m, ids, .error (.ofSparse e))
  | .ok pattern =>
    let (m, ids) := { m with pattern }.renewSystem ids
    (m, ids, .ok ())

theorem toModel_ingest (m : StoredModel α κ) (nodes : Array (Vec3 α))
    (elements : Array (kind κ).Element) (ids : IdSupply) :
    ((m.ingest nodes elements ids).1.toModel, (m.ingest nodes elements ids).2) =
      m.toModel.extend nodes elements ids := by
  simp only [ingest, TypedModel.extend, toModel, numNodes]
  cases Pattern.ofElements (m.referencePositions ++ nodes).size
      ((m.elements ++ elements).toList.map fun e => ((kind κ).nodes e).toList) with
  | error e => rfl
  | ok P => rfl

end StoredModel

/-! ### Builders -/

namespace StoredBuilder

def ofModel (m : StoredModel α κ) : StoredBuilder α κ := ⟨m, #[], #[], false⟩

/-- The builder of the model without its system. -/
def toBuilder (b : StoredBuilder α κ) : Builder α κ :=
  ⟨b.model.toModel, b.pendingNodes, b.pendingElements, b.built⟩

/-- Makes the staged nodes and elements part of the model. -/
def build (b : StoredBuilder α κ) (ids : IdSupply) :
    StoredBuilder α κ × IdSupply × Except ModelError Unit :=
  if b.built then (b, ids, .error .builderConsumed)
  else
    let (model, ids, status) := b.model.ingest b.pendingNodes b.pendingElements ids
    ({ model, pendingNodes := #[], pendingElements := #[], built := true }, ids, status)

/-- Executes a command. What is staged does not depend on the system. -/
def execute (b : StoredBuilder α κ) (ids : IdSupply) :
    Command α κ → StoredBuilder α κ × IdSupply × Except ModelError Reply
  | .build =>
    let (b, ids, status) := b.build ids
    (b, ids, status.map fun _ => .done)
  | c =>
    let (staged, ids, reply) := b.toBuilder.execute ids c
    ({ b with
      pendingNodes := staged.pendingNodes
      pendingElements := staged.pendingElements }, ids, reply)

/-- The builder and the supply of identities after a list of commands, accepted or not. -/
def run (b : StoredBuilder α κ) (ids : IdSupply) :
    List (Command α κ) → StoredBuilder α κ × IdSupply
  | [] => (b, ids)
  | c :: commands =>
    let (b, ids, _) := b.execute ids c
    b.run ids commands

variable {b : StoredBuilder α κ}

theorem toBuilder_build (b : StoredBuilder α κ) (ids : IdSupply) :
    ((b.build ids).1.toBuilder, (b.build ids).2) = b.toBuilder.build ids := by
  rw [build, Builder.build]
  cases hBuilt : b.built with
  | true => simp [toBuilder, hBuilt]
  | false =>
      have hModel := b.model.toModel_ingest b.pendingNodes b.pendingElements ids
      simp only [toBuilder, hBuilt, Bool.false_eq_true, if_false, ← hModel]

/-- Staging is left to the builder of the model without its system. -/
theorem execute_of_ne_build (b : StoredBuilder α κ) (ids : IdSupply) {c : Command α κ}
    (hc : c ≠ .build) : b.execute ids c = ({ b with
      pendingNodes := (b.toBuilder.execute ids c).1.pendingNodes
      pendingElements := (b.toBuilder.execute ids c).1.pendingElements },
        (b.toBuilder.execute ids c).2) := by
  cases c with
  | build => exact absurd rfl hc
  | _ => rfl

/-- Every command does the same to a builder and to the builder of the model without its system,
with the same reply. -/
theorem toBuilder_execute (b : StoredBuilder α κ) (ids : IdSupply) (c : Command α κ) :
    ((b.execute ids c).1.toBuilder, (b.execute ids c).2) = b.toBuilder.execute ids c := by
  by_cases hc : c = .build
  · subst hc
    rw [execute, Builder.execute, ← toBuilder_build]
  · rw [execute_of_ne_build b ids hc]
    rcases Bool.eq_false_or_eq_true b.built with hBuilt | hOpen
    · rw [Builder.execute_of_built (b := b.toBuilder) hBuilt]
      rfl
    · obtain ⟨_, nodes, elements, hResult, _⟩ :=
        Builder.execute_of_open (b := b.toBuilder) hOpen ids hc
      refine Prod.ext ?_ rfl
      rw [hResult]
      rfl

theorem toBuilder_run (b : StoredBuilder α κ) (ids : IdSupply) (commands : List (Command α κ)) :
    ((b.run ids commands).1.toBuilder, (b.run ids commands).2) = b.toBuilder.run ids commands := by
  induction commands generalizing b ids with
  | nil => rfl
  | cons c commands ih =>
      rw [Builder.run, ← toBuilder_execute]
      exact ih _ _

/-- A builder that has been built rejects every command, a further build too. -/
theorem execute_of_built (hBuilt : b.built = true) (ids : IdSupply) (c : Command α κ) :
    b.execute ids c = (b, ids, .error .builderConsumed) := by
  by_cases hc : c = .build
  · subst hc
    simp [execute, build, hBuilt, Except.map]
  · rw [execute_of_ne_build b ids hc, Builder.execute_of_built (b := b.toBuilder) hBuilt]
    rfl

/-- What a command other than a build does, whether it is rejected or not: it stages nodes, and
elements that fit the nodes there are then. -/
theorem execute_of_open (hOpen : b.built = false) (ids : IdSupply) {c : Command α κ}
    (hc : c ≠ .build) : ∃ nodes elements,
      (b.execute ids c).1 = { b with
        pendingNodes := b.pendingNodes ++ nodes
        pendingElements := b.pendingElements ++ elements } ∧
      ∀ e ∈ elements, (kind κ).Fits e (b.model.numNodes + (b.pendingNodes ++ nodes).size) := by
  obtain ⟨_, nodes, elements, hResult, hFits, _⟩ :=
    Builder.execute_of_open (b := b.toBuilder) hOpen ids hc
  refine ⟨nodes.toArray, elements.toArray, ?_, fun e he => ?_⟩
  · rw [execute_of_ne_build b ids hc, hResult]
    rfl
  · have hCount : b.toBuilder.numNodes + nodes.length =
        b.model.numNodes + (b.pendingNodes ++ nodes.toArray).size := by
      rw [Array.size_append, ← Nat.add_assoc]
      rfl
    exact hCount ▸ hFits e (List.mem_toArray.mp he)

/-- A builder is used up by its first build, and by nothing else. -/
theorem built_execute (b : StoredBuilder α κ) (ids : IdSupply) (c : Command α κ) :
    (b.execute ids c).1.built = true ↔ b.built = true ∨ c = .build := by
  by_cases hc : c = .build
  · subst hc
    rw [execute, build]
    cases hBuilt : b.built with
    | true => simp [hBuilt]
    | false => simp
  · rw [execute_of_ne_build b ids hc]
    simp [hc]

theorem built_run (b : StoredBuilder α κ) (ids : IdSupply) (commands : List (Command α κ)) :
    (b.run ids commands).1.built = true ↔ b.built = true ∨ .build ∈ commands := by
  induction commands generalizing b ids with
  | nil => simp [run]
  | cons c commands ih =>
      rw [run, ih, built_execute, List.mem_cons, or_assoc, eq_comm (a := c)]

/-- The builder of a session is used up exactly if a build is among the commands. -/
theorem built_run_ofModel (m : StoredModel α κ) (ids : IdSupply) (commands : List (Command α κ)) :
    ((ofModel m).run ids commands).1.built = true ↔ .build ∈ commands := by
  rw [built_run]
  exact or_iff_right Bool.false_ne_true

end StoredBuilder

/-! ### Sessions -/

namespace StoredModel

/-- The model and the supply of identities after a session with a new builder. -/
def session (m : StoredModel α κ) (commands : List (Command α κ)) (ids : IdSupply) :
    StoredModel α κ × IdSupply :=
  let (b, ids) := (StoredBuilder.ofModel m).run ids commands
  (b.model, ids)

theorem toModel_session (m : StoredModel α κ) (commands : List (Command α κ)) (ids : IdSupply) :
    ((m.session commands ids).1.toModel, (m.session commands ids).2) =
      m.toModel.session commands ids := by
  have hRun := (StoredBuilder.ofModel m).toBuilder_run ids commands
  rw [TypedModel.session]
  exact congrArg (fun final => (final.1.model, final.2)) hRun

end StoredModel

end Elastodynamics
