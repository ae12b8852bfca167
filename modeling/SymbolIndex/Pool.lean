/-!
# Pools

A pool lends out a fixed number of things that are costly to make. Every slot is
vacant, holds an idle thing or is in use; a stack holds the slots that can be lent.
Taking a slot, failing to fill it and giving it back are steps of their own, so that
several borrowers may be between two of them at once.
-/

namespace SymbolIndex

inductive Cell (α : Type) where
  | vacant
  | idle (thing : α)
  | inUse
deriving DecidableEq

namespace Cell

variable {α : Type}

def isVacant : Cell α -> Bool
  | vacant => true
  | _ => false

def idle? : Cell α -> Option α
  | idle thing => some thing
  | _ => none

end Cell

/-- A thing lent from a slot of a pool. -/
structure Borrowed (α : Type) where
  slot : Nat
  thing : α
deriving DecidableEq

structure Pool (α : Type) where
  cells : List (Cell α)
  free : List Nat
deriving DecidableEq

namespace Pool

variable {α ε : Type}

/-- A pool of vacant slots, at least one, which are lent in ascending order. -/
def ofCapacity (n : Nat) : Pool α :=
  ⟨List.replicate (max n 1) .vacant, List.range (max n 1)⟩

def capacity (p : Pool α) : Nat := p.cells.length

def available (p : Pool α) : Nat := p.free.length

/-- How many slots hold a thing or have one lent. -/
def constructed (p : Pool α) : Nat := p.cells.countP fun c => !c.isVacant

/-- Take the slot on top of the stack, with the thing that is idle in it. -/
def pop (p : Pool α) : Option (Nat × Option α × Pool α) :=
  match p.free with
  | [] => none
  | slot :: rest => some (slot, p.cells[slot]?.bind Cell.idle?, ⟨p.cells.set slot .inUse, rest⟩)

/-- Give a slot back without a thing. -/
def vacate (p : Pool α) (slot : Nat) : Pool α := ⟨p.cells.set slot .vacant, slot :: p.free⟩

def release (p : Pool α) (b : Borrowed α) : Pool α :=
  ⟨p.cells.set b.slot (.idle b.thing), b.slot :: p.free⟩

def discard (p : Pool α) (b : Borrowed α) : Pool α := p.vacate b.slot

/-- Whether the next slot to be lent has no thing yet. -/
def mustConstruct (p : Pool α) : Bool :=
  match p.pop with
  | some (_, none, _) => true
  | _ => false

/-- Borrow a thing, made by `make` if the slot has none; nothing where no slot is free. -/
def acquire (p : Pool α) (make : Except ε α) : Option (Except ε (Borrowed α) × Pool α) :=
  match p.pop with
  | none => none
  | some (slot, some thing, p) => some (.ok ⟨slot, thing⟩, p)
  | some (slot, none, p) =>
      match make with
      | .ok thing => some (.ok ⟨slot, thing⟩, p)
      | .error e => some (.error e, p.vacate slot)

end Pool

/-- A pool of collectors, each known by the number of the attempt that made it. -/
structure CollectorPool where
  pool : Pool Nat
  attempts : Nat
deriving DecidableEq

namespace CollectorPool

variable {ε : Type}

def ofCapacity (n : Nat) : CollectorPool := ⟨.ofCapacity n, 0⟩

/-- Borrow a collector; `fails` says with what failure the attempt of a number ends. -/
def acquire (c : CollectorPool) (fails : Nat -> Option ε) :
    Option (Except ε (Borrowed Nat) × CollectorPool) :=
  let attempts := if c.pool.mustConstruct then c.attempts + 1 else c.attempts
  let make : Except ε Nat := match fails c.attempts with
    | some e => .error e
    | none => .ok c.attempts
  (c.pool.acquire make).map fun (r, pool) => (r, ⟨pool, attempts⟩)

def release (c : CollectorPool) (b : Borrowed Nat) : CollectorPool :=
  { c with pool := c.pool.release b }

def discard (c : CollectorPool) (b : Borrowed Nat) : CollectorPool :=
  { c with pool := c.pool.discard b }

end CollectorPool
end SymbolIndex
