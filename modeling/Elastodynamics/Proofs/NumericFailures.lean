import Elastodynamics.Proofs.DirectSum
import Elastodynamics.Proofs.Workspace.Outcomes
/-!
Numeric failures. An evaluation that passes its checks fails exactly if an element contributes an
entry that is not finite, in a model of elements that checks values; the index in the error is the
place of the first such element among all elements of all bodies. Which scalars count as finite does
not matter.
-/
namespace Elastodynamics

open Model Sparse

variable {α : Type} [Scalar α] [ElementFamily α]

/-- That a status is the right one for elements in their places. -/
structure Verdict (q : Quantity α) (sites : List (Site α)) (status : Except ModelError Unit) :
    Prop where
  /-- A failure has the index of the first element that reports one. -/
  failure : ∀ k quantity, status = .error (.numericFailure k quantity) ↔
    quantity = q.name ∧ (∃ s, sites[k]? = some s ∧ s.Reports q) ∧
      ∀ j < k, ∀ s, sites[j]? = some s → ¬ s.Reports q
  /-- Without a report there is no error. -/
  success : (∀ s ∈ sites, ¬ s.Reports q) → status = .ok ()

/-- That a status is the right one for bodies with the given statuses: a failure is that of the
first body that has one, with the elements of the bodies before it counted. -/
def FirstBody (bodies : List (Model α)) (statuses : List (Except ModelError Unit))
    (status : Except ModelError Unit) : Prop :=
  ∀ k quantity, status = .error (.numericFailure k quantity) ↔
    ∃ i offset j : Nat, (elementOffsets 0 bodies)[i]? = some offset ∧
      statuses[i]? = some (.error (.numericFailure j quantity)) ∧ k = offset + j ∧
      ∀ i' < i, statuses[i']? = some (.ok ())

omit [Scalar α] in
theorem findIdx?_eq_some_iff {p : Site α → Bool} {sites : List (Site α)} {k : Nat} :
    sites.findIdx? p = some k ↔ (∃ s, sites[k]? = some s ∧ p s = true) ∧
      ∀ j < k, ∀ s, sites[j]? = some s → ¬ p s = true := by
  rw [List.findIdx?_eq_some_iff_getElem]
  constructor
  · rintro ⟨hk, hReport, hBefore⟩
    refine ⟨⟨_, List.getElem?_eq_getElem hk, hReport⟩, fun j hj s hs => ?_⟩
    obtain ⟨_, rfl⟩ := List.getElem?_eq_some_iff.mp hs
    exact hBefore j hj
  · rintro ⟨⟨s, hs, hReport⟩, hBefore⟩
    obtain ⟨hk, rfl⟩ := List.getElem?_eq_some_iff.mp hs
    exact ⟨hk, hReport, fun j hj => hBefore j hj _ (List.getElem?_eq_getElem _)⟩

omit [Scalar α] in
theorem verdict_eq_error_iff {quantity quantity' : String} {first k : Nat} {o : Option Nat} :
    verdict quantity first o = .error (.numericFailure k quantity') ↔
      quantity' = quantity ∧ ∃ j, o = some j ∧ k = first + j := by
  cases o with
  | none => simp [verdict]
  | some j => simp [verdict, eq_comm, and_comm]

/-- The place of the first report decides. -/
theorem verdict_of_findIdx? {q : Quantity α} {p : Site α → Bool}
    (hReports : ∀ s, p s = true ↔ s.Reports q) (sites : List (Site α)) :
    Verdict q sites (verdict q.name 0 (sites.findIdx? p)) where
  failure k quantity := by
    simp only [verdict_eq_error_iff, Nat.zero_add, exists_eq_right', ← hReports,
      ← findIdx?_eq_some_iff]
  success h := by
    have hNone : sites.findIdx? p = none := by
      rw [List.findIdx?_eq_none_iff]
      intro s hs
      rw [← Bool.not_eq_true, hReports]
      exact h s hs
    rw [hNone]
    rfl

omit [Scalar α] in
/-- Bodies are evaluated up to the first one with a report. -/
theorem firstBody_of_pieces {p : Site α → Bool} {quantity : String} {bodies : List (Model α)}
    {x : Motion α} {statuses : List (Except ModelError Unit)}
    (h : Pieces (fun b x status => status = verdict quantity 0 ((b.sites x).findIdx? p)) bodies x
      statuses) (first k : Nat) (name : String) :
    verdict quantity first ((sitesOf bodies x).findIdx? p) = .error (.numericFailure k name) ↔
      ∃ i offset j : Nat, (elementOffsets first bodies)[i]? = some offset ∧
        statuses[i]? = some (.error (.numericFailure j name)) ∧ k = offset + j ∧
        ∀ i' < i, statuses[i']? = some (.ok ()) := by
  induction h generalizing first with
  | nil x => simp [sitesOf, elementOffsets, verdict]
  | @cons b bodies x status statuses hBody hRest ih =>
      rw [sitesOf, verdict_append, ← hBody, length_sites, elementOffsets]
      cases status with
      | error e =>
          constructor
          · intro hError
            cases hFind : (b.sites (x.take b.numDofs)).findIdx? p with
            | none =>
                rw [hFind] at hBody
                cases hBody
            | some j =>
                rw [hFind] at hBody
                cases hBody
                cases hError
                refine ⟨0, first, 0 + j, rfl, rfl, rfl, ?_⟩
                exact fun i' hi' => absurd hi' (Nat.not_lt_zero i')
          · rintro ⟨_ | i, offset, j, hOffset, hStatus, rfl, hBefore⟩
            · cases hOffset
              cases hStatus
              rfl
            · cases hBefore 0 (Nat.succ_pos i)
      | ok u =>
          refine (ih (first + b.numElements)).trans ?_
          constructor
          · rintro ⟨i, offset, j, hOffset, hStatus, hk, hBefore⟩
            refine ⟨i + 1, offset, j, hOffset, hStatus, hk, ?_⟩
            rintro (_ | i') hi'
            · rfl
            · exact hBefore i' (Nat.lt_of_succ_lt_succ hi')
          · rintro ⟨_ | i, offset, j, hOffset, hStatus, hk, hBefore⟩
            · cases hStatus
            · exact ⟨i, offset, j, hOffset, hStatus, hk,
                fun i' hi' => hBefore (i' + 1) (Nat.succ_lt_succ hi')⟩

omit [Scalar α] in
/-- Bodies that have their outcomes in states which hold the pieces of a motion decide the outcome
of the whole. -/
theorem firstBody_of_split {owner : SystemId} {P : Pattern} {bodies : List (Model α)}
    {x : Motion α} {states : List (State α)} (hSplit : Split bodies x states)
    {evaluate : Model α → State α → Except ModelError Unit} {quantity : String}
    {p : Site α → Bool} (hEvaluate : ∀ b ∈ bodies, ∀ t ∈ states, t.system.id = b.systemId →
      evaluate b t = verdict quantity 0 ((b.sites t.motion).findIdx? p)) :
    FirstBody bodies ((bodies.zip states).map fun p => evaluate p.1 p.2)
      (verdict quantity 0 (((composite owner P bodies).sites x).findIdx? p)) := by
  rw [sites]
  intro k name
  have hStatuses : (bodies.zip states).map (fun p => evaluate p.1 p.2) =
      ((bodies.zip states).map fun p => evaluate p.1 p.2).map id := (List.map_id _).symm
  refine firstBody_of_pieces (hSplit.pieces ?_ hStatuses) 0 k name
  intro b hb t ht hOwner y hy
  rw [← hEvaluate b hb t ht hOwner]
  exact hy.symm

namespace Workspace

variable {W : Workspace α} {m : Model α} {s : State α}

/-- Numeric failures of a model that a program has made, in a state that it accepts, after the
checks before an evaluation. Without weights there are none. Otherwise the first element of all that
reports one decides the outcome, and of the bodies of a model, if states of theirs hold the pieces
of its motion, the first one that fails. -/
theorem numeric_failures (hW : W.Reachable) (hm : m ∈ W.models) (hs : s ∈ W.states)
    (hId : s.system.id = m.systemId) :
    (∀ r, m.checkResidual s.contents r = .ok () →
      Verdict .residual (m.sites s.motion) (m.calcResidual s r).2.2) ∧
    (∀ w A, m.checkTangent s.contents A = .ok () → w.isZero = false →
      Verdict (.tangent w) (m.sites s.motion) (m.calcTangent s w A).2.2) ∧
    (∀ w A, m.checkTangent s.contents A = .ok () → w.isZero = true →
      (m.calcTangent s w A).2.2 = .ok ()) ∧
    Verdict .energy (m.sites s.motion) ((m.calcEnergy s).2.map fun _ => ()) ∧
    ∀ id P bodies, m = .composite id P bodies → ∀ states, (∀ t ∈ states, t ∈ W.states) →
      Split bodies s.motion states →
      (∀ r, m.checkResidual s.contents r = .ok () →
        FirstBody bodies ((bodies.zip states).map fun p =>
          (p.1.computeResidual p.2).2.map fun _ => ()) (m.calcResidual s r).2.2) ∧
      (∀ w A, m.checkTangent s.contents A = .ok () →
        FirstBody bodies ((bodies.zip states).map fun p =>
          (p.1.calcTangent p.2 w p.1.makeTangent).2.2) (m.calcTangent s w A).2.2) ∧
      FirstBody bodies ((bodies.zip states).map fun p => (p.1.calcEnergy p.2).2.map fun _ => ())
        ((m.calcEnergy s).2.map fun _ => ()) := by
  refine ⟨fun r hCheck => ?_, fun w A hCheck hw => ?_, fun w A hCheck hw => ?_, ?_, ?_⟩
  · rw [hW.status_calcResidual hm hs hId hCheck]
    exact verdict_of_findIdx? (q := .residual) (fun s => Site.reports_iff) _
  · rw [hW.status_calcTangent hm hs hId w hCheck]
    apply verdict_of_findIdx? (q := .tangent w)
    intro s
    rw [Site.reportsTangent, hw, Bool.not_false, Bool.true_and]
    exact Site.reports_iff
  · rw [hW.status_calcTangent hm hs hId w hCheck, List.findIdx?_eq_none_iff.mpr]
    · rfl
    · intro s _
      rw [Site.reportsTangent, hw, Bool.not_true, Bool.false_and]
  · rw [hW.status_calcEnergy hm hs hId]
    exact verdict_of_findIdx? (q := .energy) (fun s => Site.reports_iff) _
  · rintro owner P bodies rfl states hStates hSplit
    have hBody {b : Model α} (hb : b ∈ bodies) : b ∈ W.models := hW.body_mem hm b hb
    refine ⟨fun r hCheck => ?_, fun w A hCheck => ?_, ?_⟩
    · rw [hW.status_calcResidual hm hs hId hCheck]
      exact firstBody_of_split hSplit fun b hb t ht hOwner =>
        hW.status_computeResidual (hBody hb) (hStates t ht) hOwner
    · rw [hW.status_calcTangent hm hs hId w hCheck]
      exact firstBody_of_split hSplit fun b hb t ht hOwner =>
        hW.status_calcTangent (hBody hb) (hStates t ht) hOwner w
          (hW.checkTangent_makeTangent (hBody hb) (hStates t ht) hOwner)
    · rw [hW.status_calcEnergy hm hs hId]
      exact firstBody_of_split hSplit fun b hb t ht hOwner =>
        hW.status_calcEnergy (hBody hb) (hStates t ht) hOwner

/-- The stiff element of the second body is the last one of four. -/
theorem numeric_failures_mixed : ∃ P,
    ofBodies [.typed lenient.1, .typed strict.1] bounded.ids =
      (.ok (mixed P), bounded.ids.fresh.2) ∧
    ((mixed P).calcTangent (mixed P).makeState ⟨1, 1, 1⟩ (mixed P).makeTangent).2.2 =
      .error (.numericFailure 3 "tangent matrix") := by
  obtain ⟨P, hOk, hW⟩ := exists_mixed
  have hId : (mixed P).makeState.system.id = (mixed P).systemId := (mixed P).id_system
  obtain ⟨_, hTangent, _⟩ := numeric_failures hW List.mem_cons_self List.mem_cons_self hId
  have hVerdict : Verdict (.tangent ⟨1, 1, 1⟩) ((mixed P).sites (mixed P).makeState.motion) _ :=
    hTangent ⟨1, 1, 1⟩ (mixed P).makeTangent
      (hW.checkTangent_makeTangent List.mem_cons_self List.mem_cons_self hId) rfl
  have hFind : ((mixed P).sites (mixed P).makeState.motion).findIdx?
      (·.reports (.tangent ⟨1, 1, 1⟩)) = some 3 := findIdx?_mixed P
  refine ⟨P, hOk, (hVerdict.failure 3 "tangent matrix").mpr ⟨rfl, ?_⟩⟩
  simpa only [Site.reports_iff] using findIdx?_eq_some_iff.mp hFind

end Workspace

end Elastodynamics
