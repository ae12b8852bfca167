import SymbolIndex.Pool.Lending

/-!
# Calls to a pool of collectors

Collectors are borrowed and given back, one call after the other, each in one go. Who
asks for a collector while no slot is free has to wait, so the call is made only once
there is one; who only tries goes away with nothing. Only what is lent can be given back.
-/

namespace SymbolIndex

inductive PoolCall where
  | acquire
  | tryAcquire
  | release (b : Borrowed Nat)
deriving DecidableEq

namespace Lending

variable {ε : Type}

/-- Somebody borrows a collector, or fails to make one; nothing where no slot is free. -/
def borrow? (fails : Nat -> Option ε) (l : Lending) : Option Lending :=
  match CollectorPool.acquire ⟨l.pool, l.attempts⟩ fails with
  | none => none
  | some (.ok b, c) => some { l with pool := c.pool, attempts := c.attempts, lent := b :: l.lent }
  | some (.error _, c) => some { l with pool := c.pool, attempts := c.attempts }

/-- The lending once a call went through, if the call can be made now. -/
def call? (fails : Nat -> Option ε) (l : Lending) : PoolCall -> Option Lending
  | .acquire => l.borrow? fails
  | .tryAcquire => some ((l.borrow? fails).getD l)
  | .release b =>
      if b ∈ l.lent then some { l with pool := l.pool.release b, lent := l.lent.erase b } else none

/-- The lending after some calls, if each of them can be made in its turn. -/
def run? (fails : Nat -> Option ε) (l : Lending) (calls : List PoolCall) : Option Lending :=
  calls.foldlM (call? fails) l

/-- The collectors that were made so far: one in each attempt that did not fail. -/
def made (fails : Nat -> Option ε) (l : Lending) : List Nat :=
  (List.range l.attempts).filter fun attempt => (fails attempt).isNone

end Lending
end SymbolIndex
