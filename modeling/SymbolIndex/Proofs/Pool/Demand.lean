import Mathlib.Data.List.Induction
import Mathlib.Order.Bounds.Defs
import SymbolIndex.Pool.Calls
import SymbolIndex.Proofs.Pool.Exclusion

/-!
# Collectors are made on demand

As long as no collector is thrown away, the slots that were never filled lie below all
others on the stack of free slots. So a collector is made only where every one that
there is has been lent, and there are never more of them than were lent at one time.
-/

namespace SymbolIndex
namespace Lending

variable {ε : Type} {fails : Nat -> Option ε} {left : Nat -> Option Nat}
  {pool : Pool Nat} {attempts : Nat} {held : List (Borrowed Nat)} {l l' : Lending}
  {call : PoolCall} {calls : List PoolCall}

/-!
# What a call does
-/

/-- A call borrows a collector that is idle or is made for it, or fails to make one, or finds
every slot taken, or gives something back. -/
inductive Served (fails : Nat -> Option ε) (l : Lending) : Lending -> Prop where
  | reused {slot thing : Nat} {p : Pool Nat} (hpop : l.pool.pop = some (slot, some thing, p)) :
      Served fails l { l with pool := p, lent := ⟨slot, thing⟩ :: l.lent }
  | made {slot : Nat} {p : Pool Nat} (hpop : l.pool.pop = some (slot, none, p))
      (hmade : fails l.attempts = none) :
      Served fails l { l with
        pool := p, attempts := l.attempts + 1, lent := ⟨slot, l.attempts⟩ :: l.lent }
  | failed {slot : Nat} {p : Pool Nat} {e : ε} (hpop : l.pool.pop = some (slot, none, p))
      (hfailed : fails l.attempts = some e) :
      Served fails l { l with pool := p.vacate slot, attempts := l.attempts + 1 }
  | refused : Served fails l l
  | released {b : Borrowed Nat} (hlent : b ∈ l.lent) :
      Served fails l { l with pool := l.pool.release b, lent := l.lent.erase b }

theorem served_of_borrow? (h : l.borrow? fails = some l') : Served fails l l' := by
  rw [borrow?] at h
  split at h
  · cases h
  · rename_i b c hacquire
    cases h
    cases CollectorPool.acquired_of_acquire hacquire with
    | reused hpop => exact .reused hpop
    | made hpop hmade => exact .made hpop hmade
  · rename_i e c hacquire
    cases h
    cases CollectorPool.acquired_of_acquire hacquire with
    | failed hpop hfailed => exact .failed hpop hfailed

theorem served_of_call? (h : l.call? fails call = some l') : Served fails l l' := by
  cases call with
  | acquire => exact served_of_borrow? h
  | tryAcquire =>
      rw [call?, Option.some.injEq] at h
      cases hborrow : l.borrow? fails with
      | none =>
          rw [hborrow] at h
          cases h
          exact .refused
      | some next =>
          rw [hborrow] at h
          cases h
          exact served_of_borrow? hborrow
  | release b =>
      rw [call?] at h
      split at h
      · rename_i hlent
        cases h
        exact .released hlent
      · cases h

theorem run?_append_eq_some_iff {earlier later : List PoolCall} :
    run? fails l (earlier ++ later) = some l' ↔
      exists between, run? fails l earlier = some between ∧ run? fails between later = some l' := by
  rw [run?, List.foldlM_append]
  exact Option.bind_eq_some_iff

/-!
# The collectors that were made
-/

theorem made_of_fails {e : ε} (hfails : fails l.attempts = some e)
    (hattempts : l'.attempts = l.attempts + 1) : l'.made fails = l.made fails := by
  rw [made, hattempts, List.range_succ, List.filter_append]
  simp [made, hfails]

theorem made_of_not_fails (hfails : fails l.attempts = none)
    (hattempts : l'.attempts = l.attempts + 1) : l'.made fails = l.made fails ++ [l.attempts] := by
  rw [made, hattempts, List.range_succ, List.filter_append]
  simp [made, hfails]

theorem length_made_le (h : l.attempts ≤ l'.attempts) :
    (l.made fails).length ≤ (l'.made fails).length :=
  ((List.range_sublist.mpr h).filter _).length_le

theorem attempts_le_of_call? (h : l.call? fails call = some l') : l.attempts ≤ l'.attempts := by
  cases served_of_call? h with
  | reused hpop => exact Nat.le_refl _
  | made hpop hmade => exact Nat.le_succ _
  | failed hpop hfailed => exact Nat.le_succ _
  | refused => exact Nat.le_refl _
  | released hlent => exact Nat.le_refl _

theorem attempts_le_of_run? (h : run? fails l calls = some l') : l.attempts ≤ l'.attempts := by
  induction calls generalizing l with
  | nil =>
      cases h
      exact Nat.le_refl _
  | cons call rest ih =>
      rw [run?, List.foldlM_cons] at h
      rcases Option.bind_eq_some_iff.mp h with ⟨next, hcall, hrest⟩
      exact Nat.le_trans (attempts_le_of_call? hcall) (ih hrest)

/-!
# Thrift
-/

/-- A pool that has lost no collector, and that lends what is idle before it has more made. -/
structure Thrifty (fails : Nat -> Option ε) (left : Nat -> Option Nat) (l : Lending) : Prop where
  exclusive : Exclusive left l.pool l.attempts l.lent
  /-- The slots without a collector lie below all others on the stack. -/
  stacked : l.pool.free.Pairwise fun above below => left above = none -> left below = none
  /-- What was made is idle or lent. -/
  stocked : (l.pool.free.filterMap left ++ l.lent.map Borrowed.thing).Perm (l.made fails)

theorem thrifty_ofCapacity (n : Nat) : Thrifty fails (fun _ => none) (ofCapacity n) where
  exclusive := exclusive_ofCapacity n
  stacked := List.pairwise_of_forall fun _ _ _ => rfl
  stocked := by
    rw [List.filterMap_eq_nil_iff.mpr (fun _ _ => rfl)]
    exact List.Perm.nil

theorem Thrifty.filterMap_left_of_pop {slot : Nat} (h : Thrifty fails left l)
    (hpop : l.pool.pop = some (slot, none, pool)) : l.pool.free.filterMap left = [] := by
  have hslot := h.exclusive.left_of_pop hpop
  have hstacked := h.stacked
  rw [(Pool.free_of_pop hpop).1, List.pairwise_cons] at hstacked
  rw [(Pool.free_of_pop hpop).1, List.filterMap_cons_none hslot.symm, List.filterMap_eq_nil_iff]
  exact fun below hbelow => hstacked.1 below hbelow hslot.symm

theorem Thrifty.lent_of_pop {slot : Nat} (h : Thrifty fails left l)
    (hpop : l.pool.pop = some (slot, none, pool)) :
    (l.lent.map Borrowed.thing).Perm (l.made fails) := by
  have hstocked := h.stocked
  rw [h.filterMap_left_of_pop hpop, List.nil_append] at hstocked
  exact hstocked

/-!
# Calls keep a pool thrifty
-/

theorem Thrifty.stacked_of_pop {slot : Nat} {thing : Option Nat} (h : Thrifty fails left l)
    (hpop : l.pool.pop = some (slot, thing, pool)) :
    pool.free.Pairwise fun above below => left above = none -> left below = none := by
  have hstacked := h.stacked
  rw [(Pool.free_of_pop hpop).1] at hstacked
  exact hstacked.of_cons

theorem Thrifty.reused {slot thing : Nat} (h : Thrifty fails left l)
    (hpop : l.pool.pop = some (slot, some thing, pool)) :
    Thrifty fails left { l with pool := pool, lent := ⟨slot, thing⟩ :: l.lent } where
  exclusive := h.exclusive.reuse hpop
  stacked := h.stacked_of_pop hpop
  stocked := by
    have hstocked := h.stocked
    rw [(Pool.free_of_pop hpop).1,
      List.filterMap_cons_some (h.exclusive.left_of_pop hpop).symm] at hstocked
    exact List.perm_middle.trans hstocked

theorem Thrifty.made {slot : Nat} (h : Thrifty fails left l)
    (hpop : l.pool.pop = some (slot, none, pool)) (hmade : fails l.attempts = none) :
    Thrifty fails left { l with
      pool := pool, attempts := l.attempts + 1, lent := ⟨slot, l.attempts⟩ :: l.lent } where
  exclusive := h.exclusive.start hpop
  stacked := h.stacked_of_pop hpop
  stocked := by
    have hstocked := h.stocked
    rw [(Pool.free_of_pop hpop).1,
      List.filterMap_cons_none (h.exclusive.left_of_pop hpop).symm] at hstocked
    rw [made_of_not_fails hmade rfl]
    refine List.perm_middle.trans ?_
    exact (hstocked.cons l.attempts).trans (List.perm_append_singleton ..).symm

theorem Thrifty.failed {slot : Nat} {e : ε} (h : Thrifty fails left l)
    (hpop : l.pool.pop = some (slot, none, pool)) (hfailed : fails l.attempts = some e) :
    Thrifty fails left { l with pool := pool.vacate slot, attempts := l.attempts + 1 } := by
  have hfree : (pool.vacate slot).free = l.pool.free := by
    rw [Pool.free_vacate, (Pool.free_of_pop hpop).1]
  -- nothing was left in the slot before
  have hleft : leaving left slot none = left := by
    funext other
    by_cases heq : slot = other
    · subst heq
      rw [leaving_self, h.exclusive.left_of_pop hpop]
    · exact leaving_of_ne heq
  constructor
  · have hback : Exclusive (leaving left slot none) (pool.vacate slot) (l.attempts + 1) l.lent :=
      (h.exclusive.start hpop).giveBack (fun _ hnone => by cases hnone)
    rw [hleft] at hback
    exact hback
  · rw [hfree]
    exact h.stacked
  · rw [hfree, made_of_fails hfailed rfl]
    exact h.stocked

theorem Thrifty.released {b : Borrowed Nat} (h : Thrifty fails left l) (hlent : b ∈ l.lent) :
    Thrifty fails (leaving left b.slot (some b.thing))
      { l with pool := l.pool.release b, lent := l.lent.erase b } := by
  have hperm := List.perm_cons_erase hlent
  have hexclusive := h.exclusive.of_perm hperm
  have hnew : b.slot ∉ l.pool.free :=
    fun hslot => hexclusive.slot_notMem (List.mem_append_left _ hslot)
  constructor
  · exact hexclusive.giveBack (fun _ hsome => (Option.some.inj hsome).symm)
  · rw [Pool.free_release, List.pairwise_cons]
    refine ⟨fun below _ hnone => by simp at hnone, ?_⟩
    refine h.stacked.imp_of_mem ?_
    intro above below habove hbelow himp
    rw [leaving_of_ne (ne_of_mem_of_not_mem habove hnew).symm,
      leaving_of_ne (ne_of_mem_of_not_mem hbelow hnew).symm]
    exact himp
  · rw [Pool.free_release, List.filterMap_cons_some leaving_self, filterMap_leaving hnew]
    refine List.perm_middle.symm.trans (List.Perm.trans ?_ h.stocked)
    exact ((hperm.map Borrowed.thing).append_left _).symm

theorem Thrifty.after_call (h : Thrifty fails left l) (hcall : l.call? fails call = some l') :
    exists left', Thrifty fails left' l' := by
  cases served_of_call? hcall with
  | reused hpop => exact ⟨left, h.reused hpop⟩
  | made hpop hmade => exact ⟨left, h.made hpop hmade⟩
  | failed hpop hfailed => exact ⟨left, h.failed hpop hfailed⟩
  | refused => exact ⟨left, h⟩
  | released hlent => exact ⟨_, h.released hlent⟩

theorem Thrifty.after_run (h : Thrifty fails left l) (hrun : run? fails l calls = some l') :
    exists left', Thrifty fails left' l' := by
  induction calls generalizing left l with
  | nil =>
      cases hrun
      exact ⟨left, h⟩
  | cons call rest ih =>
      rw [run?, List.foldlM_cons] at hrun
      rcases Option.bind_eq_some_iff.mp hrun with ⟨next, hcall, hrest⟩
      rcases h.after_call hcall with ⟨left', hnext⟩
      exact ih hnext hrest

/-!
# How many there are
-/

theorem Thrifty.length_lent_le (h : Thrifty fails left l) :
    l.lent.length ≤ (l.made fails).length := by
  have hlength := h.stocked.length_eq
  rw [List.length_append, List.length_map] at hlength
  omega

theorem Thrifty.made_of_call (h : Thrifty fails left l) (hcall : l.call? fails call = some l') :
    l'.made fails = l.made fails ∨ l'.lent.length = (l'.made fails).length := by
  cases served_of_call? hcall with
  | reused hpop => exact .inl rfl
  | made hpop hmade =>
      right
      have hlength := (h.lent_of_pop hpop).length_eq
      rw [List.length_map] at hlength
      rw [made_of_not_fails hmade rfl, List.length_append, List.length_cons, hlength]
      rfl
  | failed hpop hfailed => exact .inl (made_of_fails hfailed rfl)
  | refused => exact .inl rfl
  | released hlent => exact .inl rfl

theorem exists_all_lent {n : Nat} (hrun : run? fails (ofCapacity n) calls = some l) :
    exists earlier before, earlier <+: calls ∧
      run? fails (ofCapacity n) earlier = some before ∧
        before.lent.length = (l.made fails).length := by
  induction calls using List.reverseRecOn generalizing l with
  | nil =>
      cases hrun
      exact ⟨[], ofCapacity n, List.prefix_refl [], rfl, rfl⟩
  | append_singleton calls call ih =>
      rcases run?_append_eq_some_iff.mp hrun with ⟨next, hcalls, hlast⟩
      have hcall : next.call? fails call = some l := by simpa [run?] using hlast
      rcases (thrifty_ofCapacity n).after_run hcalls with ⟨left, hthrifty⟩
      -- the last call left all of them lent, unless it made none
      rcases hthrifty.made_of_call hcall with hsame | hall
      · rcases ih hcalls with ⟨earlier, before, hearlier, hbefore, hlent⟩
        refine ⟨earlier, before, hearlier.trans (List.prefix_append ..), hbefore, ?_⟩
        rw [hsame, hlent]
      · exact ⟨calls ++ [call], l, List.prefix_refl _, hrun, hall⟩

/-!
# What the pool counts
-/

theorem countP_eq_countP_range {α : Type} (p : α -> Bool) (xs : List α) :
    xs.countP p = (List.range xs.length).countP fun i => xs[i]?.any p := by
  induction xs with
  | nil => rfl
  | cons x rest ih =>
      rw [List.length_cons, List.range_succ_eq_map, List.countP_cons, List.countP_cons,
        List.countP_map, ih]
      simp [Function.comp_def]

theorem Exclusive.constructed_eq (h : Exclusive left pool attempts held) :
    pool.constructed = (pool.free.filterMap left).length + held.length := by
  have hidle : pool.free.countP (fun slot => pool.cells[slot]?.any fun c => !c.isVacant) =
      (pool.free.filterMap left).length := by
    rw [List.length_filterMap_eq_countP]
    refine List.countP_congr ?_
    intro slot hslot
    rw [h.rested slot hslot]
    cases left slot with
    | none => simp [Cell.resting, Cell.isVacant]
    | some thing => simp [Cell.resting, Cell.isVacant]
  have hheld : (held.map Borrowed.slot).countP
      (fun slot => pool.cells[slot]?.any fun c => !c.isVacant) = held.length := by
    rw [List.countP_map, List.countP_eq_length]
    intro b hb
    rw [Function.comp_apply, h.used b hb]
    rfl
  rw [Pool.constructed, countP_eq_countP_range, ← Pool.capacity, ← h.slots.countP_eq,
    List.countP_append, hidle, hheld]

theorem Thrifty.constructed_eq (h : Thrifty fails left l) :
    l.pool.constructed = (l.made fails).length := by
  rw [h.exclusive.constructed_eq, ← h.stocked.length_eq, List.length_append, List.length_map]

/-!
# No more than are needed
-/

/--
Whatever is borrowed and given back, and whichever attempts to make a collector fail: as many
collectors were made as were ever lent at the same time. Nobody attempts to make one unless
all that were made are lent, and the pool counts those that were made.
-/
theorem collectors_are_made_on_demand {n : Nat}
    (hrun : run? fails (ofCapacity n) calls = some l) :
    IsGreatest {count | exists earlier before, earlier <+: calls ∧
        run? fails (ofCapacity n) earlier = some before ∧ before.lent.length = count}
      (l.made fails).length ∧
    (forall call l', l.call? fails call = some l' -> l'.attempts ≠ l.attempts ->
      forall thing, thing ∈ l.made fails -> exists b, b ∈ l.lent ∧ b.thing = thing) ∧
    l.pool.constructed = (l.made fails).length := by
  rcases (thrifty_ofCapacity n).after_run hrun with ⟨left, hthrifty⟩
  refine ⟨⟨exists_all_lent hrun, ?_⟩, ?_, hthrifty.constructed_eq⟩
  · rintro count ⟨earlier, before, ⟨later, rfl⟩, hbefore, rfl⟩
    rcases (thrifty_ofCapacity n).after_run hbefore with ⟨left', hearlier⟩
    rcases run?_append_eq_some_iff.mp hrun with ⟨between, hbetween, hlater⟩
    rw [hbefore] at hbetween
    cases hbetween
    exact Nat.le_trans hearlier.length_lent_le (length_made_le (attempts_le_of_run? hlater))
  · intro call l' hcall hattempts thing hthing
    -- only a slot without a collector makes the factory work
    have hpop : exists slot pool, l.pool.pop = some (slot, none, pool) := by
      cases served_of_call? hcall with
      | reused hpop => exact absurd rfl hattempts
      | made hpop hmade => exact ⟨_, _, hpop⟩
      | failed hpop hfailed => exact ⟨_, _, hpop⟩
      | refused => exact absurd rfl hattempts
      | released hlent => exact absurd rfl hattempts
    rcases hpop with ⟨slot, pool, hpop⟩
    exact List.mem_map.mp ((hthrifty.lent_of_pop hpop).mem_iff.mpr hthing)

/-- The second attempt fails. The third borrower finds no slot, and the fourth gets what the
first gave back. -/
def shortCalls : List PoolCall :=
  [.acquire, .acquire, .tryAcquire, .tryAcquire, .release ⟨0, 0⟩, .tryAcquire]

def secondFails (attempt : Nat) : Option String := if attempt = 1 then some "no memory" else none

def afterShort : Lending := ⟨⟨[.inUse, .inUse], []⟩, 3, [], [⟨0, 0⟩, ⟨1, 2⟩]⟩

theorem two_collectors_are_made_on_demand :
    run? secondFails (ofCapacity 2) shortCalls = some afterShort ∧
      afterShort.made secondFails = [0, 2] ∧
      IsGreatest {count | exists earlier before, earlier <+: shortCalls ∧
        run? secondFails (ofCapacity 2) earlier = some before ∧ before.lent.length = count} 2 ∧
      afterShort.pool.constructed = 2 := by
  have hrun : run? secondFails (ofCapacity 2) shortCalls = some afterShort := by decide
  rcases collectors_are_made_on_demand hrun with ⟨hgreatest, -, hcount⟩
  exact ⟨hrun, by decide, hgreatest, hcount⟩

end Lending
end SymbolIndex
