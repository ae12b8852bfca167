import Mathlib.Data.List.Basic
import SymbolIndex.Pool.Calls
import SymbolIndex.Proofs.Pool

/-!
# No two borrowers share a thing

Every slot of a pool is on the stack or held by one borrower, whatever the order of
their turns and whichever attempts fail. A slot on the stack has what was left in it
when it was last given back, so taking it hands out that thing, and where none was left
the borrower makes a new one.
-/

namespace SymbolIndex

/-- A cell that is not in use. -/
def Cell.resting {α : Type} : Option α -> Cell α
  | none => .vacant
  | some thing => .idle thing

@[simp] theorem Cell.idle?_resting {α : Type} (thing : Option α) :
    (Cell.resting thing).idle? = thing := by
  cases thing <;> rfl

theorem Cell.resting_ne_inUse {α : Type} (thing : Option α) : Cell.resting thing ≠ .inUse := by
  cases thing <;> simp [Cell.resting]

namespace Lending

/-!
# Who has what
-/

/-- A pool, what was left in the slots on its stack and what is held of the others. -/
structure Exclusive (left : Nat -> Option Nat) (pool : Pool Nat) (attempts : Nat)
    (held : List (Borrowed Nat)) : Prop where
  /-- Every slot is on the stack or held, and nowhere twice. -/
  slots : (pool.free ++ held.map Borrowed.slot).Perm (List.range pool.capacity)
  /-- No thing is in two places. -/
  things : (pool.free.filterMap left ++ held.map Borrowed.thing).Nodup
  numbered : forall thing, thing ∈ pool.free.filterMap left ++ held.map Borrowed.thing ->
    thing < attempts
  rested : forall slot, slot ∈ pool.free -> pool.cells[slot]? = some (Cell.resting (left slot))
  used : forall b, b ∈ held -> pool.cells[b.slot]? = some .inUse

variable {left : Nat -> Option Nat} {pool pool' : Pool Nat} {attempts attempts' : Nat}
  {held held' : List (Borrowed Nat)} {slot : Nat} {thing : Option Nat} {b : Borrowed Nat}

theorem exclusive_ofCapacity (n : Nat) : Exclusive (fun _ => none) (.ofCapacity n) 0 [] where
  slots := by simp [Pool.ofCapacity, Pool.capacity]
  things := by
    rw [List.filterMap_eq_nil_iff.mpr (fun _ _ => rfl)]
    exact List.nodup_nil
  numbered := by simp
  rested := by
    intro slot hslot
    rw [Pool.ofCapacity, List.mem_range] at hslot
    rw [Pool.ofCapacity, List.getElem?_replicate_of_lt hslot]
    rfl
  used := by simp

theorem Exclusive.of_perm (h : Exclusive left pool attempts held) (hperm : held.Perm held') :
    Exclusive left pool attempts held' where
  slots := ((hperm.map _).append_left _).symm.trans h.slots
  things := ((hperm.map _).append_left _).nodup h.things
  numbered := fun thing hthing =>
    h.numbered thing (((hperm.map _).append_left _).mem_iff.mpr hthing)
  rested := h.rested
  used := fun b hb => h.used b (hperm.mem_iff.mpr hb)

theorem Exclusive.nodup_slots (h : Exclusive left pool attempts held) :
    (pool.free ++ held.map Borrowed.slot).Nodup :=
  h.slots.nodup_iff.mpr List.nodup_range

theorem Exclusive.slot_lt (h : Exclusive left pool attempts held)
    (hslot : slot ∈ pool.free ++ held.map Borrowed.slot) : slot < pool.cells.length :=
  List.mem_range.mp (h.slots.mem_iff.mp hslot)

theorem Exclusive.slot_notMem (h : Exclusive left pool attempts (b :: held)) :
    b.slot ∉ pool.free ++ held.map Borrowed.slot := by
  have hnodup := h.nodup_slots
  rw [List.map_cons, List.perm_middle.nodup_iff, List.nodup_cons] at hnodup
  exact hnodup.1

/-!
# Taking a slot
-/

theorem Exclusive.left_of_pop (h : Exclusive left pool attempts held)
    (hpop : pool.pop = some (slot, thing, pool')) : thing = left slot := by
  have hslot : slot ∈ pool.free := by
    rw [(Pool.free_of_pop hpop).1]
    exact List.mem_cons_self
  rw [(Pool.cells_of_pop hpop).1, h.rested slot hslot, Option.bind_some, Cell.idle?_resting]

/-- A slot was taken with a thing that is nowhere else. -/
theorem Exclusive.take (h : Exclusive left pool attempts held)
    (hpop : pool.pop = some (b.slot, thing, pool')) (hattempts : attempts ≤ attempts')
    (hmade : b.thing < attempts')
    (hnew : b.thing ∉ pool'.free.filterMap left ++ held.map Borrowed.thing) :
    Exclusive left pool' attempts' (b :: held) := by
  rcases Pool.free_of_pop hpop with ⟨hfree, hcapacity⟩
  have hcells := (Pool.cells_of_pop hpop).2
  have hnodup := h.nodup_slots
  rw [hfree, List.cons_append, List.nodup_cons] at hnodup
  have hlt : b.slot < pool.cells.length := h.slot_lt (by simp [hfree])
  have hsub : List.Sublist (pool'.free.filterMap left ++ held.map Borrowed.thing)
      (pool.free.filterMap left ++ held.map Borrowed.thing) := by
    rw [hfree]
    exact ((List.sublist_cons_self ..).filterMap left).append (List.Sublist.refl _)
  refine ⟨?_, ?_, ?_, ?_, ?_⟩
  · rw [hcapacity, List.map_cons]
    refine List.perm_middle.trans ?_
    rw [← List.cons_append, ← hfree]
    exact h.slots
  · rw [List.map_cons]
    exact List.perm_middle.nodup_iff.mpr (List.nodup_cons.mpr ⟨hnew, h.things.sublist hsub⟩)
  · intro other hother
    rw [List.map_cons, List.mem_append, List.mem_cons, or_left_comm] at hother
    rcases hother with rfl | hother
    · exact hmade
    · have hmem := hsub.subset (List.mem_append.mpr hother)
      exact Nat.lt_of_lt_of_le (h.numbered other hmem) hattempts
  · intro slot hslot
    have hne : b.slot ≠ slot := by
      rintro rfl
      exact hnodup.1 (List.mem_append_left _ hslot)
    rw [hcells, List.getElem?_set_ne hne]
    exact h.rested slot (by rw [hfree]; exact List.mem_cons_of_mem _ hslot)
  · intro other hother
    rcases List.mem_cons.mp hother with rfl | hother
    · rw [hcells, List.getElem?_set_self hlt]
    · have hne : b.slot ≠ other.slot := by
        intro heq
        exact hnodup.1 (List.mem_append_right _ (List.mem_map.mpr ⟨other, hother, heq.symm⟩))
      rw [hcells, List.getElem?_set_ne hne]
      exact h.used other hother

theorem Exclusive.reuse {thing : Nat} (h : Exclusive left pool attempts held)
    (hpop : pool.pop = some (slot, some thing, pool')) :
    Exclusive left pool' attempts (⟨slot, thing⟩ :: held) := by
  have hleft := h.left_of_pop hpop
  have hthings : pool.free.filterMap left = thing :: pool'.free.filterMap left := by
    rw [(Pool.free_of_pop hpop).1, List.filterMap_cons_some hleft.symm]
  have hnodup := h.things
  rw [hthings, List.cons_append, List.nodup_cons] at hnodup
  refine h.take hpop (Nat.le_refl _) (h.numbered thing ?_) hnodup.1
  rw [hthings]
  exact List.mem_append_left _ List.mem_cons_self

theorem Exclusive.start (h : Exclusive left pool attempts held)
    (hpop : pool.pop = some (slot, none, pool')) :
    Exclusive left pool' (attempts + 1) (⟨slot, attempts⟩ :: held) := by
  refine h.take hpop (Nat.le_succ _) (Nat.lt_succ_self _) ?_
  intro hmem
  refine Nat.lt_irrefl attempts (h.numbered attempts ?_)
  rw [(Pool.free_of_pop hpop).1, List.filterMap_cons_none (h.left_of_pop hpop).symm]
  exact hmem

/-!
# Giving a slot back
-/

/-- What is left in the slots after one of them was given back. -/
def leaving (left : Nat -> Option Nat) (slot : Nat) (thing : Option Nat) : Nat -> Option Nat :=
  fun other => if slot = other then thing else left other

@[simp] theorem leaving_self : leaving left slot thing slot = thing := if_pos rfl

theorem leaving_of_ne {other : Nat} (h : slot ≠ other) :
    leaving left slot thing other = left other := if_neg h

theorem filterMap_leaving {slots : List Nat} (h : slot ∉ slots) :
    slots.filterMap (leaving left slot thing) = slots.filterMap left := by
  refine List.filterMap_congr ?_
  intro other hother
  refine leaving_of_ne ?_
  rintro rfl
  exact h hother

/-- A slot is given back with the thing that was held with it, or with none. -/
theorem Exclusive.giveBack (h : Exclusive left pool attempts (b :: held))
    (hthing : forall t, thing = some t -> t = b.thing) :
    Exclusive (leaving left b.slot thing)
      ⟨pool.cells.set b.slot (Cell.resting thing), b.slot :: pool.free⟩ attempts held := by
  have hnew := h.slot_notMem
  have hlt : b.slot < pool.cells.length := h.slot_lt (by simp)
  -- the slot is not among those that were free, so what was left in those is as before
  have hkept : pool.free.filterMap (leaving left b.slot thing) = pool.free.filterMap left :=
    filterMap_leaving fun hslot => hnew (List.mem_append_left _ hslot)
  have hsub : List.Sublist
      ((b.slot :: pool.free).filterMap (leaving left b.slot thing) ++
        held.map Borrowed.thing)
      (b.thing :: (pool.free.filterMap left ++ held.map Borrowed.thing)) := by
    cases thing with
    | none =>
        rw [List.filterMap_cons_none leaving_self, hkept]
        exact List.sublist_cons_self ..
    | some t =>
        rw [List.filterMap_cons_some leaving_self, hkept, hthing t rfl, List.cons_append]
  refine ⟨?_, ?_, ?_, ?_, ?_⟩
  · have hslots := h.slots
    rw [List.map_cons] at hslots
    rw [Pool.capacity, List.length_set]
    exact List.perm_middle.symm.trans hslots
  · have hthings := h.things
    rw [List.map_cons, List.perm_middle.nodup_iff] at hthings
    exact hthings.sublist hsub
  · intro other hother
    refine h.numbered other ?_
    rw [List.map_cons, List.perm_middle.mem_iff]
    exact hsub.subset hother
  · intro slot hslot
    by_cases heq : b.slot = slot
    · subst heq
      rw [leaving_self, List.getElem?_set_self hlt]
    · rw [leaving_of_ne heq, List.getElem?_set_ne heq]
      exact h.rested slot ((List.mem_cons.mp hslot).resolve_left (Ne.symm heq))
  · intro other hother
    have hne : b.slot ≠ other.slot := by
      intro heq
      exact hnew (List.mem_append_right _ (List.mem_map.mpr ⟨other, hother, heq.symm⟩))
    rw [List.getElem?_set_ne hne]
    exact h.used other (List.mem_cons_of_mem _ hother)

/-!
# Turns
-/

/-- Who has what after some acts. -/
def Settled (acts : List Act) (l : Lending) : Prop :=
  Exclusive (fun slot => left? slot acts) l.pool l.attempts (l.building ++ l.lent)

variable {acts : List Act} {act : Act} {l l' : Lending}

theorem Settled.building (h : Settled acts l) (hb : b ∈ l.building) :
    Exclusive (fun slot => left? slot acts) l.pool l.attempts
      (b :: (l.building.erase b ++ l.lent)) :=
  h.of_perm ((List.perm_cons_erase hb).append_right _)

theorem Settled.lent (h : Settled acts l) (hb : b ∈ l.lent) :
    Exclusive (fun slot => left? slot acts) l.pool l.attempts
      (b :: (l.building ++ l.lent.erase b)) :=
  h.of_perm (((List.perm_cons_erase hb).append_left _).trans List.perm_middle)

theorem Settled.turn (h : Settled acts l) (hturn : Turn l act l') : Settled (act :: acts) l' := by
  cases hturn with
  | reuse hpop => exact (Exclusive.reuse h hpop).of_perm List.perm_middle.symm
  | start hpop => exact Exclusive.start h hpop
  | ready hb => exact (h.building hb).of_perm List.perm_middle.symm
  | giveUp hb => exact (h.building hb).giveBack (fun _ hnone => by cases hnone)
  | release hb => exact (h.lent hb).giveBack (fun _ hsome => (Option.some.inj hsome).symm)
  | discard hb => exact (h.lent hb).giveBack (fun _ hnone => by cases hnone)

theorem History.settled {n : Nat} (h : History n acts l) : Settled acts l := by
  induction h with
  | fresh => exact exclusive_ofCapacity n
  | turn _ hturn ih => exact ih.turn hturn

/-!
# Undisturbed calls
-/

theorem turns_of_acquire_ok {ε : Type} {fails : Nat -> Option ε} {c : CollectorPool}
    (h : CollectorPool.acquire ⟨l.pool, l.attempts⟩ fails = some (.ok b, c)) :
    Turn l (.reuse b) { l with pool := c.pool, attempts := c.attempts, lent := b :: l.lent } ∨
      exists between, Turn l (.start b) between ∧
        Turn between (.ready b)
          { l with pool := c.pool, attempts := c.attempts, lent := b :: l.lent } := by
  cases CollectorPool.acquired_of_acquire h with
  | reused hpop => exact .inl (.reuse hpop)
  | @made slot p hpop hmade =>
      refine .inr ⟨_, .start hpop, ?_⟩
      have hready := Turn.ready (l := { l with
        pool := p, attempts := l.attempts + 1,
        building := ⟨slot, l.attempts⟩ :: l.building }) List.mem_cons_self
      rw [List.erase_cons_head] at hready
      exact hready

theorem turns_of_acquire_error {ε : Type} {fails : Nat -> Option ε} {c : CollectorPool} {e : ε}
    (h : CollectorPool.acquire ⟨l.pool, l.attempts⟩ fails = some (.error e, c)) :
    exists slot between, Turn l (.start ⟨slot, l.attempts⟩) between ∧
      Turn between (.giveUp ⟨slot, l.attempts⟩)
        { l with pool := c.pool, attempts := c.attempts } := by
  cases CollectorPool.acquired_of_acquire h with
  | @failed slot p e hpop hfailed =>
      refine ⟨slot, _, .start hpop, ?_⟩
      have hgiveUp := Turn.giveUp (l := { l with
        pool := p, attempts := l.attempts + 1,
        building := ⟨slot, l.attempts⟩ :: l.building }) List.mem_cons_self
      rw [List.erase_cons_head] at hgiveUp
      exact hgiveUp

/-- What a call does in one go, the borrowers could have done in their turns. -/
theorem History.call {ε : Type} {n : Nat} {fails : Nat -> Option ε} {call : PoolCall}
    (h : History n acts l) (hcall : l.call? fails call = some l') :
    exists more, History n (more ++ acts) l' := by
  have hborrow : forall l', l.borrow? fails = some l' ->
      exists more, History n (more ++ acts) l' := by
    intro l' hborrow
    rw [borrow?] at hborrow
    split at hborrow
    · cases hborrow
    · rename_i b c hacquire
      cases hborrow
      rcases turns_of_acquire_ok hacquire with hreuse | ⟨between, hstart, hready⟩
      · exact ⟨[_], h.turn hreuse⟩
      · exact ⟨[_, _], (h.turn hstart).turn hready⟩
    · rename_i e c hacquire
      cases hborrow
      rcases turns_of_acquire_error hacquire with ⟨slot, between, hstart, hgiveUp⟩
      exact ⟨[_, _], (h.turn hstart).turn hgiveUp⟩
  cases call with
  | acquire => exact hborrow l' hcall
  | tryAcquire =>
      cases hnone : l.borrow? fails with
      | none =>
          rw [call?, hnone] at hcall
          cases hcall
          exact ⟨[], h⟩
      | some lent =>
          rw [call?, hnone] at hcall
          cases hcall
          exact hborrow lent hnone
  | release b =>
      rw [call?] at hcall
      split at hcall
      · rename_i hb
        cases hcall
        exact ⟨[_], h.turn (.release hb)⟩
      · cases hcall

/-!
# Whatever the borrowers do
-/

/-- However the turns of the borrowers interleave and whichever attempts fail, the stack
has no slot twice, every slot is either on it or lent or being filled, none of those on
it is in use and no two borrowers have the same thing. Whoever takes a slot gets the
thing last released into it, or makes a new one if nothing was ever left there or what
was there was thrown away. A call that is made in one go takes such turns. -/
theorem borrowers_are_kept_apart {n : Nat} {acts : List Act} {l : Lending}
    (h : History n acts l) :
    l.pool.free.Nodup ∧
      (l.pool.free ++ (l.lent.map Borrowed.slot ++ l.building.map Borrowed.slot)).Perm
        (List.range l.pool.capacity) ∧
      (forall slot, slot ∈ l.pool.free ->
        exists cell, l.pool.cells[slot]? = some cell ∧ cell ≠ .inUse) ∧
      (l.lent.map Borrowed.thing).Nodup ∧
      (forall b l', Turn l (.reuse b) l' -> left? b.slot acts = some b.thing) ∧
      (forall b l', Turn l (.start b) l' -> left? b.slot acts = none) ∧
      (forall (ε : Type) (fails : Nat -> Option ε) call l', l.call? fails call = some l' ->
        exists more, History n (more ++ acts) l') := by
  have hsettled := h.settled
  refine ⟨?_, ?_, ?_, ?_, ?_, ?_, fun _ _ _ _ hcall => h.call hcall⟩
  · exact (List.nodup_append.mp hsettled.nodup_slots).1
  · have hslots := hsettled.slots
    rw [List.map_append] at hslots
    exact (List.perm_append_comm.append_left _).trans hslots
  · intro slot hslot
    exact ⟨_, hsettled.rested slot hslot, Cell.resting_ne_inUse _⟩
  · have hthings := (List.nodup_append.mp hsettled.things).2.1
    rw [List.map_append] at hthings
    exact (List.nodup_append.mp hthings).2.1
  · intro b l' hturn
    cases hturn with
    | reuse hpop => exact (hsettled.left_of_pop hpop).symm
  · intro b l' hturn
    cases hturn with
    | start hpop => exact (hsettled.left_of_pop hpop).symm

/-- Two borrowers at work at once: one of them fails, the other gives its thing back and
takes it again. -/
def twoAtOnce : List Act :=
  [.reuse ⟨0, 0⟩, .release ⟨0, 0⟩, .giveUp ⟨1, 1⟩, .ready ⟨0, 0⟩, .start ⟨1, 1⟩, .start ⟨0, 0⟩]

def afterTwo : Lending := ⟨⟨[.inUse, .vacant], [1]⟩, 2, [], [⟨0, 0⟩]⟩

theorem history_twoAtOnce : History 2 twoAtOnce afterTwo := by
  have hfirst : History 2 [.start ⟨0, 0⟩] ⟨⟨[.inUse, .vacant], [1]⟩, 1, [⟨0, 0⟩], []⟩ :=
    .turn .fresh (.start rfl)
  have hsecond : History 2 [.start ⟨1, 1⟩, .start ⟨0, 0⟩]
      ⟨⟨[.inUse, .inUse], []⟩, 2, [⟨1, 1⟩, ⟨0, 0⟩], []⟩ := .turn hfirst (.start rfl)
  have hready : History 2 [.ready ⟨0, 0⟩, .start ⟨1, 1⟩, .start ⟨0, 0⟩]
      ⟨⟨[.inUse, .inUse], []⟩, 2, [⟨1, 1⟩], [⟨0, 0⟩]⟩ := .turn hsecond (.ready (by decide))
  have hgiveUp : History 2 [.giveUp ⟨1, 1⟩, .ready ⟨0, 0⟩, .start ⟨1, 1⟩, .start ⟨0, 0⟩]
      ⟨⟨[.inUse, .vacant], [1]⟩, 2, [], [⟨0, 0⟩]⟩ := .turn hready (.giveUp (by decide))
  have hrelease : History 2
      [.release ⟨0, 0⟩, .giveUp ⟨1, 1⟩, .ready ⟨0, 0⟩, .start ⟨1, 1⟩, .start ⟨0, 0⟩]
      ⟨⟨[.idle 0, .vacant], [0, 1]⟩, 2, [], []⟩ := .turn hgiveUp (.release (by decide))
  exact .turn hrelease (.reuse rfl)

theorem two_borrowers_are_kept_apart :
    History 2 twoAtOnce afterTwo ∧
      afterTwo.pool.free.Nodup ∧
      ([1] ++ ([0] ++ [])).Perm (List.range 2) ∧
      (forall slot, slot ∈ [1] ->
        exists cell, afterTwo.pool.cells[slot]? = some cell ∧ cell ≠ .inUse) ∧
      [0].Nodup ∧
      (forall b l', Turn afterTwo (.reuse b) l' -> left? b.slot twoAtOnce = some b.thing) ∧
      (forall b l', Turn afterTwo (.start b) l' -> left? b.slot twoAtOnce = none) ∧
      (forall (ε : Type) (fails : Nat -> Option ε) call l', afterTwo.call? fails call = some l' ->
        exists more, History 2 (more ++ twoAtOnce) l') :=
  ⟨history_twoAtOnce, borrowers_are_kept_apart history_twoAtOnce⟩

end Lending
end SymbolIndex
