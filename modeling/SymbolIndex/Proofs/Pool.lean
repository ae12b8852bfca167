import SymbolIndex.Pool

/-!
# What a pool does to its free slots

Borrowing takes the top of the stack of free slots, giving back puts a slot on top, and
a borrowing that fails leaves the stack as it was. The number of slots never changes.
-/

namespace SymbolIndex

namespace Pool

variable {α ε : Type}

@[simp] theorem capacity_vacate (p : Pool α) (slot : Nat) :
    (p.vacate slot).capacity = p.capacity := by
  simp [vacate, capacity]

@[simp] theorem capacity_release (p : Pool α) (b : Borrowed α) :
    (p.release b).capacity = p.capacity := by
  simp [release, capacity]

@[simp] theorem capacity_discard (p : Pool α) (b : Borrowed α) :
    (p.discard b).capacity = p.capacity := by
  simp [discard]

@[simp] theorem free_vacate (p : Pool α) (slot : Nat) :
    (p.vacate slot).free = slot :: p.free := rfl

@[simp] theorem free_release (p : Pool α) (b : Borrowed α) :
    (p.release b).free = b.slot :: p.free := rfl

theorem pop_eq_none_iff (p : Pool α) : p.pop = none ↔ p.free = [] := by
  unfold pop
  cases p.free with
  | nil => simp
  | cons slot rest => simp

theorem free_of_pop {p q : Pool α} {slot : Nat} {thing : Option α}
    (h : p.pop = some (slot, thing, q)) :
    p.free = slot :: q.free ∧ q.capacity = p.capacity := by
  unfold pop at h
  cases hfree : p.free with
  | nil =>
      rw [hfree] at h
      cases h
  | cons top rest =>
      rw [hfree] at h
      cases h
      simp [capacity]

theorem cells_of_pop {p q : Pool α} {slot : Nat} {thing : Option α}
    (h : p.pop = some (slot, thing, q)) :
    thing = p.cells[slot]?.bind Cell.idle? ∧ q.cells = p.cells.set slot .inUse := by
  unfold pop at h
  cases hfree : p.free with
  | nil =>
      rw [hfree] at h
      cases h
  | cons top rest =>
      rw [hfree] at h
      cases h
      exact ⟨rfl, rfl⟩

theorem cell_of_pop {p q : Pool α} {slot : Nat} {thing : α}
    (h : p.pop = some (slot, some thing, q)) : p.cells[slot]? = some (.idle thing) := by
  rcases Option.bind_eq_some_iff.mp (cells_of_pop h).1.symm with ⟨cell, hcell, hidle⟩
  rw [hcell]
  cases cell with
  | idle thing =>
      cases hidle
      rfl
  | vacant => cases hidle
  | inUse => cases hidle

theorem mustConstruct_of_pop {p q : Pool α} {slot : Nat} {thing : Option α}
    (h : p.pop = some (slot, thing, q)) : p.mustConstruct = thing.isNone := by
  rw [mustConstruct, h]
  cases thing <;> rfl

theorem acquire_eq_none_iff (p : Pool α) (make : Except ε α) :
    p.acquire make = none ↔ p.free = [] := by
  rw [← pop_eq_none_iff]
  unfold acquire
  cases hpop : p.pop with
  | none => simp
  | some taken =>
      rcases taken with ⟨slot, thing, q⟩
      cases thing with
      | some thing => simp
      | none => cases make <;> simp

end Pool

namespace CollectorPool

variable {ε : Type}

theorem acquire_eq_none_iff (c : CollectorPool) (fails : Nat -> Option ε) :
    c.acquire fails = none ↔ c.pool.free = [] := by
  unfold acquire
  rw [Option.map_eq_none_iff, Pool.acquire_eq_none_iff]

/-- What comes of borrowing a collector: the top slot of the stack is lent with what is idle
in it, or with a collector that is made for it, or the attempt to make one fails. -/
inductive Acquired (fails : Nat -> Option ε) (c : CollectorPool) :
    Except ε (Borrowed Nat) -> CollectorPool -> Prop where
  | reused {slot thing : Nat} {p : Pool Nat} (hpop : c.pool.pop = some (slot, some thing, p)) :
      Acquired fails c (.ok ⟨slot, thing⟩) ⟨p, c.attempts⟩
  | made {slot : Nat} {p : Pool Nat} (hpop : c.pool.pop = some (slot, none, p))
      (hmade : fails c.attempts = none) :
      Acquired fails c (.ok ⟨slot, c.attempts⟩) ⟨p, c.attempts + 1⟩
  | failed {slot : Nat} {p : Pool Nat} {e : ε} (hpop : c.pool.pop = some (slot, none, p))
      (hfailed : fails c.attempts = some e) :
      Acquired fails c (.error e) ⟨p.vacate slot, c.attempts + 1⟩

theorem acquired_of_acquire {c c' : CollectorPool} {fails : Nat -> Option ε}
    {r : Except ε (Borrowed Nat)} (h : c.acquire fails = some (r, c')) : Acquired fails c r c' := by
  unfold acquire Pool.acquire at h
  cases hpop : c.pool.pop with
  | none =>
      rw [hpop] at h
      cases h
  | some taken =>
      rcases taken with ⟨slot, _ | thing, p⟩
      · rw [hpop, Pool.mustConstruct_of_pop hpop] at h
        cases hfails : fails c.attempts with
        | none =>
            rw [hfails] at h
            cases h
            exact .made hpop hfails
        | some e =>
            rw [hfails] at h
            cases h
            exact .failed hpop hfails
      · rw [hpop, Pool.mustConstruct_of_pop hpop] at h
        cases h
        exact .reused hpop

theorem free_of_acquire_ok {c c' : CollectorPool} {fails : Nat -> Option ε} {b : Borrowed Nat}
    (h : c.acquire fails = some (.ok b, c')) :
    c.pool.free = b.slot :: c'.pool.free ∧ c'.pool.capacity = c.pool.capacity := by
  cases acquired_of_acquire h with
  | reused hpop => exact Pool.free_of_pop hpop
  | made hpop hmade => exact Pool.free_of_pop hpop

theorem free_of_acquire_error {c c' : CollectorPool} {fails : Nat -> Option ε} {e : ε}
    (h : c.acquire fails = some (.error e, c')) :
    c'.pool.free = c.pool.free ∧ c'.pool.capacity = c.pool.capacity := by
  cases acquired_of_acquire h with
  | failed hpop hfailed =>
      rcases Pool.free_of_pop hpop with ⟨hfree, hcapacity⟩
      exact ⟨by rw [hfree, Pool.free_vacate], by rw [Pool.capacity_vacate, hcapacity]⟩

/-!
# Where a borrowed collector comes from
-/

/-- A collector that is lent was idle in its slot, or it is the one that was just made. -/
inductive Lent (c c' : CollectorPool) (b : Borrowed Nat) : Prop where
  | idle (hidle : c.pool.mustConstruct = false)
      (hcell : c.pool.cells[b.slot]? = some (.idle b.thing))
      (hcells : c'.pool.cells = c.pool.cells.set b.slot .inUse)
      (hattempts : c'.attempts = c.attempts)
  | made (hmade : c.pool.mustConstruct = true) (hthing : b.thing = c.attempts)
      (hcells : c'.pool.cells = c.pool.cells.set b.slot .inUse)
      (hattempts : c'.attempts = c.attempts + 1)

theorem lent_of_acquire_ok {c c' : CollectorPool} {fails : Nat -> Option ε} {b : Borrowed Nat}
    (h : c.acquire fails = some (.ok b, c')) : Lent c c' b := by
  cases acquired_of_acquire h with
  | reused hpop =>
      exact .idle (Pool.mustConstruct_of_pop hpop) (Pool.cell_of_pop hpop)
        (Pool.cells_of_pop hpop).2 rfl
  | made hpop hmade =>
      exact .made (Pool.mustConstruct_of_pop hpop) rfl (Pool.cells_of_pop hpop).2 rfl

theorem fails_of_acquire_error {c c' : CollectorPool} {fails : Nat -> Option ε} {e : ε}
    (h : c.acquire fails = some (.error e, c')) : fails c.attempts = some e := by
  cases acquired_of_acquire h with
  | failed hpop hfailed => exact hfailed

theorem attempts_le_of_acquire {c c' : CollectorPool} {fails : Nat -> Option ε}
    {r : Except ε (Borrowed Nat)} (h : c.acquire fails = some (r, c')) :
    c.attempts ≤ c'.attempts := by
  cases acquired_of_acquire h with
  | reused hpop => exact Nat.le_refl _
  | made hpop hmade => exact Nat.le_succ _
  | failed hpop hfailed => exact Nat.le_succ _

theorem cells_of_acquire_error {c c' : CollectorPool} {fails : Nat -> Option ε} {e : ε}
    (h : c.acquire fails = some (.error e, c')) :
    c'.attempts = c.attempts + 1 ∧
      exists slot, c'.pool.cells = c.pool.cells.set slot .vacant := by
  cases acquired_of_acquire h with
  | @failed slot p e hpop hfailed =>
      refine ⟨rfl, slot, ?_⟩
      simp only [Pool.vacate, (Pool.cells_of_pop hpop).2]
      exact List.set_set ..

end CollectorPool
end SymbolIndex
