/-!
Identities of systems. Each system gets an identity of its own, in increasing order, and a state is
known to belong to a system by it.
-/
namespace Elastodynamics

structure SystemId where
  index : Nat
deriving Repr, DecidableEq

def SystemId.text (id : SystemId) : String := s!"#{id.index}"

/-- A supply of identities: those from `next` on have not been given out. -/
structure IdSupply where
  next : Nat
deriving Repr, DecidableEq

/-- A new identity, and the supply without it. -/
def IdSupply.fresh (ids : IdSupply) : SystemId × IdSupply := (⟨ids.next⟩, ⟨ids.next + 1⟩)

end Elastodynamics
