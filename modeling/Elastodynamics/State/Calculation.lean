import Elastodynamics.State.Memo
/-!
Calculations of the values in slots. A calculation sees the motion of its state, may ask for the
values of other slots, and may change a value in place. Evaluation is lazy: a filled slot is read,
and an empty one is filled by its calculation.
-/
namespace Elastodynamics

inductive Calculation (α : Type) [ElementFamily α] where
  | done (v : Value α)
  | fail
  /-- Evaluates a slot and goes on with its value. -/
  | eval (index : Nat) (next : Value α → Calculation α)
  /-- Changes the value in a slot, if it is filled, and goes on. -/
  | update (index : Nat) (change : Value α → Value α) (next : Calculation α)

/-- The declaration of a slot. Its calculation may depend on the declared partitions only. -/
structure Entry (α : Type) [ElementFamily α] where
  name : String
  dependencies : Dependencies
  calculation : Motion α → Calculation α

/-- Why the evaluation of a slot gave no value. -/
inductive EvalError where
  /-- There is no slot with that index. -/
  | noEntry
  /-- The calculation failed, or it asked for a slot that could not be evaluated. -/
  | failed
deriving Repr, DecidableEq

variable {α : Type} [ElementFamily α]

/-- Performs a calculation, given how slots are evaluated. What comes before a failure remains. -/
def Calculation.run
    (eval : Nat → Memo α (Value α) → Except EvalError (Value α) × Memo α (Value α)) :
    Calculation α → Memo α (Value α) → Except EvalError (Value α) × Memo α (Value α)
  | done v, m => (.ok v, m)
  | fail, m => (.error .failed, m)
  | .eval i next, m =>
    match eval i m with
    | (.ok v, m) => (next v).run eval m
    | (.error _, m) => (.error .failed, m)
  | update i change next, m => next.run eval (m.update i change)

namespace Memo

/-- Evaluates a slot with at most `depth` calculations inside of each other. If a calculation comes
to a value and finds its own slot filled meanwhile, it fails, and the slot keeps what it holds. -/
def evalWithin (entries : List (Entry α)) :
    (depth : Nat) → Nat → Memo α (Value α) → Except EvalError (Value α) × Memo α (Value α)
  | 0, _, m => (.error .failed, m)
  | depth + 1, i, m =>
    match entries[i]? with
    | none => (.error .noEntry, m)
    | some entry =>
      match m.slot? i with
      | some v => (.ok v, m)
      | none =>
        match (entry.calculation m.motion).run (evalWithin entries depth) (m.start i) with
        | (.ok v, m) => if m.isFilled i then (.error .failed, m) else (.ok v, m.fill i v)
        | (.error _, m) => (.error .failed, m)

/-- Evaluates a slot. Calculations that do not ask for themselves nest at most once per slot, and
the last of them may still read a filled slot. -/
def eval (entries : List (Entry α)) (i : Nat) (m : Memo α (Value α)) :
    Except EvalError (Value α) × Memo α (Value α) :=
  evalWithin entries (entries.length + 1) i m

end Memo

end Elastodynamics
