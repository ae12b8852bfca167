import SymbolIndex.Pool

/-!
# Lending

A pool together with those who borrow from it. Borrowers take turns in any order, and
one that found a vacant slot is at work on a thing for it until the thing is ready or
the work is given up. A thing is known by the number of the attempt that makes it, so
that no two are the same.
-/

namespace SymbolIndex

structure Lending where
  pool : Pool Nat
  attempts : Nat
  building : List (Borrowed Nat)
  lent : List (Borrowed Nat)
deriving DecidableEq

namespace Lending

def ofCapacity (n : Nat) : Lending := ⟨.ofCapacity n, 0, [], []⟩

/-- What one borrower does in one turn. -/
inductive Act where
  | reuse (b : Borrowed Nat)
  | start (b : Borrowed Nat)
  | ready (b : Borrowed Nat)
  | giveUp (b : Borrowed Nat)
  | release (b : Borrowed Nat)
  | discard (b : Borrowed Nat)
deriving DecidableEq

inductive Turn : Lending -> Act -> Lending -> Prop where
  | reuse {l : Lending} {slot thing : Nat} {pool : Pool Nat} :
      l.pool.pop = some (slot, some thing, pool) ->
      Turn l (.reuse ⟨slot, thing⟩) { l with pool := pool, lent := ⟨slot, thing⟩ :: l.lent }
  | start {l : Lending} {slot : Nat} {pool : Pool Nat} :
      l.pool.pop = some (slot, none, pool) ->
      Turn l (.start ⟨slot, l.attempts⟩)
        { l with pool := pool, attempts := l.attempts + 1,
                 building := ⟨slot, l.attempts⟩ :: l.building }
  | ready {l : Lending} {b : Borrowed Nat} :
      b ∈ l.building ->
      Turn l (.ready b) { l with building := l.building.erase b, lent := b :: l.lent }
  | giveUp {l : Lending} {b : Borrowed Nat} :
      b ∈ l.building ->
      Turn l (.giveUp b)
        { l with pool := l.pool.vacate b.slot, building := l.building.erase b }
  | release {l : Lending} {b : Borrowed Nat} :
      b ∈ l.lent ->
      Turn l (.release b) { l with pool := l.pool.release b, lent := l.lent.erase b }
  | discard {l : Lending} {b : Borrowed Nat} :
      b ∈ l.lent ->
      Turn l (.discard b) { l with pool := l.pool.discard b, lent := l.lent.erase b }

/-- What can come of a fresh pool, with the acts that led there, the latest first. -/
inductive History (n : Nat) : List Act -> Lending -> Prop where
  | fresh : History n [] (ofCapacity n)
  | turn {acts : List Act} {act : Act} {l l' : Lending} :
      History n acts l -> Turn l act l' -> History n (act :: acts) l'

/-- The thing that was left in a slot when the slot was last given back, if it ever was
and one was left. -/
def left? (slot : Nat) : List Act -> Option Nat
  | [] => none
  | .release b :: earlier => if b.slot = slot then some b.thing else left? slot earlier
  | .discard b :: earlier => if b.slot = slot then none else left? slot earlier
  | .giveUp b :: earlier => if b.slot = slot then none else left? slot earlier
  | _ :: earlier => left? slot earlier

end Lending
end SymbolIndex
