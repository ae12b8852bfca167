import SymbolIndex.Proofs.Scheduler.Serving

/-!
# No collector is used again after a panic

A collector is known by the attempt that made it. It is idle in one slot, or lent to one
job, or gone, and one on which a task panicked is lent to the job of that task until the
next sweep throws it away.
-/

namespace SymbolIndex
namespace Drain

/-!
# Reading the log
-/

theorem ends_append (log more : List Entry) : ends (log ++ more) = ends log ++ ends more :=
  List.filterMap_append

theorem broken_append (log more : List Entry) :
    broken (log ++ more) = broken log ++ broken more := by
  simp [broken, ends_append]

@[simp] theorem ends_construction (file : FileId) (collector : Option Nat) :
    ends [.construction file collector] = [] := rfl

@[simp] theorem ends_ended (job : Job) (ending : Ending) :
    ends [.ended job ending] = [(job, ending)] := rfl

theorem ends_of_serves {fails : Nat -> Option Failure} {l m : Ledger} (h : Serves fails l m) :
    ends m.2 = ends l.2 := by
  cases h with
  | handed hpop hacquire =>
      rw [ends_append]
      split <;> simp [ends]
  | refused hpop hacquire => simp [ends_append]

/-!
# Where the collectors are
-/

/-- Every collector is in one place, and those in `broken` are of no more use. -/
structure Intact (c : CollectorPool) (jobs : List Job) (broken : List Nat) : Prop where
  /-- A collector that is idle is whole and nobody has it. -/
  idle : forall slot thing : Nat, c.pool.cells[slot]? = some (Cell.idle thing) ->
    thing < c.attempts ∧ thing ∉ broken ∧ forall job, job ∈ jobs -> job.collector.thing ≠ thing
  /-- No collector is idle in two slots. -/
  once : forall slot slot' thing : Nat, c.pool.cells[slot]? = some (Cell.idle thing) ->
    c.pool.cells[slot']? = some (Cell.idle thing) -> slot = slot'
  /-- No two jobs have the same collector. -/
  apart : (jobs.map fun job => job.collector.thing).Nodup
  lent : forall job, job ∈ jobs -> job.collector.thing < c.attempts
  /-- A job that has a broken collector has come to its end. -/
  whole : forall job, job ∈ jobs -> job.collector.thing ∈ broken -> job.stage = .finished true
  made : forall thing, thing ∈ broken -> thing < c.attempts

theorem intact_ofCapacity (n : Nat) : Intact (.ofCapacity n) [] [] where
  idle := by
    intro slot thing hcell
    have hmem := List.mem_of_getElem? hcell
    rw [CollectorPool.ofCapacity, Pool.ofCapacity, List.mem_replicate] at hmem
    cases hmem.2
  once := by
    intro slot slot' thing hcell
    have hmem := List.mem_of_getElem? hcell
    rw [CollectorPool.ofCapacity, Pool.ofCapacity, List.mem_replicate] at hmem
    cases hmem.2
  apart := List.nodup_nil
  lent := by simp
  whole := by simp
  made := by simp

theorem getElem?_of_set_idle {cells : List (Cell Nat)} {slot slot' thing : Nat} {cell : Cell Nat}
    (hcell : cell.idle? = none) (h : (cells.set slot cell)[slot']? = some (Cell.idle thing)) :
    slot ≠ slot' ∧ cells[slot']? = some (Cell.idle thing) := by
  by_cases heq : slot = slot'
  · subst heq
    rw [List.getElem?_set_self'] at h
    rcases Option.map_eq_some_iff.mp h with ⟨old, -, hset⟩
    rw [Function.const_apply] at hset
    rw [hset] at hcell
    cases hcell
  · rw [List.getElem?_set_ne heq] at h
    exact ⟨heq, h⟩

variable {c c' : CollectorPool} {jobs : List Job} {dead : List Nat}

theorem Intact.of_cells (h : Intact c jobs dead) (hattempts : c.attempts ≤ c'.attempts)
    (hidle : forall slot thing : Nat, c'.pool.cells[slot]? = some (Cell.idle thing) ->
      c.pool.cells[slot]? = some (Cell.idle thing)) : Intact c' jobs dead where
  idle := by
    intro slot thing hcell
    rcases h.idle slot thing (hidle slot thing hcell) with ⟨hmade, hrest⟩
    exact ⟨Nat.lt_of_lt_of_le hmade hattempts, hrest⟩
  once := by
    intro slot slot' thing hcell hcell'
    exact h.once slot slot' thing (hidle slot thing hcell) (hidle slot' thing hcell')
  apart := h.apart
  lent := fun job hjob => Nat.lt_of_lt_of_le (h.lent job hjob) hattempts
  whole := h.whole
  made := fun thing hthing => Nat.lt_of_lt_of_le (h.made thing hthing) hattempts

/-- A collector that nobody has and that is whole and not idle any more goes to a new job. -/
theorem Intact.lend (h : Intact c jobs dead) {job : Job}
    (hidle : forall slot : Nat, c.pool.cells[slot]? ≠ some (Cell.idle job.collector.thing))
    (hmade : job.collector.thing < c.attempts) (hwhole : job.collector.thing ∉ dead)
    (hnobody : forall other, other ∈ jobs -> other.collector.thing ≠ job.collector.thing) :
    Intact c (jobs ++ [job]) dead where
  idle := by
    intro slot thing hcell
    rcases h.idle slot thing hcell with ⟨hlt, hdead, hnone⟩
    refine ⟨hlt, hdead, ?_⟩
    intro other hother
    rcases List.mem_append.mp hother with hold | hnew
    · exact hnone other hold
    · rw [List.mem_singleton.mp hnew]
      rintro rfl
      exact hidle slot hcell
  once := h.once
  apart := by
    rw [List.map_append, List.map_cons, List.map_nil]
    refine List.nodup_append.mpr ⟨h.apart, List.nodup_singleton _, ?_⟩
    intro thing hthing last hlast
    rcases List.mem_map.mp hthing with ⟨other, hother, rfl⟩
    rw [List.mem_singleton.mp hlast]
    exact hnobody other hother
  lent := by
    intro other hother
    rcases List.mem_append.mp hother with hold | hnew
    · exact h.lent other hold
    · rw [List.mem_singleton.mp hnew]
      exact hmade
  whole := by
    intro other hother hbroken
    rcases List.mem_append.mp hother with hold | hnew
    · exact h.whole other hold hbroken
    · rw [List.mem_singleton.mp hnew] at hbroken
      exact absurd hbroken hwhole
  made := h.made

theorem Intact.acquire (h : Intact c jobs dead) {fails : Nat -> Option Failure} {job : Job}
    (hacquire : c.acquire fails = some (.ok job.collector, c')) :
    Intact c' (jobs ++ [job]) dead := by
  cases CollectorPool.lent_of_acquire_ok hacquire with
  | idle hidle hcell hcells hattempts =>
      rcases h.idle _ _ hcell with ⟨hmade, hwhole, hnobody⟩
      have hfewer : Intact c' jobs dead := by
        refine h.of_cells (Nat.le_of_eq hattempts.symm) ?_
        intro slot thing hslot
        rw [hcells] at hslot
        exact (getElem?_of_set_idle rfl hslot).2
      refine hfewer.lend ?_ (by rw [hattempts]; exact hmade) hwhole hnobody
      intro slot hslot
      rw [hcells] at hslot
      rcases getElem?_of_set_idle rfl hslot with ⟨hne, hsame⟩
      exact hne (h.once _ _ _ hcell hsame)
  | made hmade hthing hcells hattempts =>
      have hfewer : Intact c' jobs dead := by
        refine h.of_cells (by rw [hattempts]; exact Nat.le_succ _) ?_
        intro slot thing hslot
        rw [hcells] at hslot
        exact (getElem?_of_set_idle rfl hslot).2
      -- the attempt was the next one, so its collector is new
      refine hfewer.lend ?_ (by rw [hattempts, hthing]; exact Nat.lt_succ_self _) ?_ ?_
      · intro slot hslot
        rw [hcells] at hslot
        have hold := (h.idle _ _ (getElem?_of_set_idle rfl hslot).2).1
        rw [hthing] at hold
        exact Nat.lt_irrefl _ hold
      · intro hdead
        have hold := h.made _ hdead
        rw [hthing] at hold
        exact Nat.lt_irrefl _ hold
      · intro other hother heq
        have hold := h.lent other hother
        rw [heq, hthing] at hold
        exact Nat.lt_irrefl _ hold

theorem Intact.acquire_error (h : Intact c jobs dead) {fails : Nat -> Option Failure}
    {failure : Failure} (hacquire : c.acquire fails = some (.error failure, c')) :
    Intact c' jobs dead := by
  rcases CollectorPool.cells_of_acquire_error hacquire with ⟨hattempts, slot, hcells⟩
  refine h.of_cells (by rw [hattempts]; exact Nat.le_succ _) ?_
  intro slot' thing hslot
  rw [hcells] at hslot
  exact (getElem?_of_set_idle rfl hslot).2

theorem Intact.sublist (h : Intact c jobs dead) {fewer : List Job} (hsub : fewer.Sublist jobs) :
    Intact c fewer dead where
  idle := by
    intro slot thing hcell
    rcases h.idle slot thing hcell with ⟨hlt, hdead, hnone⟩
    exact ⟨hlt, hdead, fun job hjob => hnone job (hsub.subset hjob)⟩
  once := h.once
  apart := h.apart.sublist (hsub.map _)
  lent := fun job hjob => h.lent job (hsub.subset hjob)
  whole := fun job hjob => h.whole job (hsub.subset hjob)
  made := h.made

theorem getElem?_of_release_idle {lent : Borrowed Nat} {slot thing : Nat}
    (h : (c.release lent).pool.cells[slot]? = some (Cell.idle thing)) :
    (lent.slot = slot ∧ thing = lent.thing) ∨ c.pool.cells[slot]? = some (Cell.idle thing) := by
  simp only [CollectorPool.release, Pool.release] at h
  by_cases heq : lent.slot = slot
  · refine Or.inl ⟨heq, ?_⟩
    rw [heq, List.getElem?_set_self'] at h
    rcases Option.map_eq_some_iff.mp h with ⟨old, -, hset⟩
    cases hset
    rfl
  · rw [List.getElem?_set_ne heq] at h
    exact Or.inr h

theorem Intact.release (h : Intact c jobs dead) {lent : Borrowed Nat}
    (hmade : lent.thing < c.attempts) (hwhole : lent.thing ∉ dead)
    (hnobody : forall job, job ∈ jobs -> job.collector.thing ≠ lent.thing)
    (hlent : forall slot : Nat, c.pool.cells[slot]? ≠ some (Cell.idle lent.thing)) :
    Intact (c.release lent) jobs dead where
  idle := by
    intro slot thing hslot
    rcases getElem?_of_release_idle hslot with ⟨-, rfl⟩ | hold
    · exact ⟨hmade, hwhole, hnobody⟩
    · exact h.idle slot thing hold
  once := by
    intro slot slot' thing hslot hslot'
    rcases getElem?_of_release_idle hslot with ⟨heq, rfl⟩ | hold
    · rcases getElem?_of_release_idle hslot' with ⟨heq', -⟩ | hold'
      · exact heq.symm.trans heq'
      · exact absurd hold' (hlent slot')
    · rcases getElem?_of_release_idle hslot' with ⟨-, rfl⟩ | hold'
      · exact absurd hold (hlent slot)
      · exact h.once slot slot' thing hold hold'
  apart := h.apart
  lent := h.lent
  whole := h.whole
  made := h.made

theorem Intact.giveBack {before after : List Job} {job : Job}
    (h : Intact c (before ++ job :: after) dead) (hfinished : job.isFinished = true) :
    Intact (Scheduler.giveBack c job) (before ++ after) dead := by
  have hfewer : Intact c (before ++ after) dead :=
    h.sublist (List.Sublist.append_left (List.sublist_cons_self _ _) _)
  have hjob : job ∈ before ++ job :: after := by simp
  have hapart : forall other, other ∈ before ++ after ->
      other.collector.thing ≠ job.collector.thing := by
    have hperm : ((job :: (before ++ after)).map fun job => job.collector.thing).Nodup :=
      (List.perm_middle.map fun job : Job => job.collector.thing).nodup_iff.mp h.apart
    intro other hother heq
    rw [List.map_cons, List.nodup_cons] at hperm
    exact hperm.1 (heq ▸ List.mem_map_of_mem hother)
  unfold Job.isFinished at hfinished
  unfold Scheduler.giveBack
  cases hstage : job.stage with
  | finished poisoned =>
      cases poisoned with
      | true =>
          refine hfewer.of_cells (Nat.le_refl _) ?_
          intro slot thing hslot
          exact (getElem?_of_set_idle rfl hslot).2
      | false =>
          refine hfewer.release (h.lent job hjob) ?_ hapart ?_
          · intro hdead
            have hpoisoned := h.whole job hjob hdead
            rw [hstage] at hpoisoned
            cases hpoisoned
          · exact fun slot hslot => (h.idle slot _ hslot).2.2 job hjob rfl
  | assigned => simp [hstage] at hfinished
  | reading path status => simp [hstage] at hfinished
  | collected status results => simp [hstage] at hfinished

theorem mem_jobs_finish {s : Scheduler} (hticketed : s.Ticketed) {job found : Job}
    (hmem : job ∈ s.jobs) {outcome : TaskOutcome} {poisoned : Bool}
    (hfound : found ∈ (s.finish job outcome poisoned).jobs) :
    exists old, old ∈ s.jobs ∧ found.collector = old.collector ∧
      (old = job ∧ found.stage = .finished poisoned ∨ old ≠ job ∧ found = old) := by
  rcases (Scheduler.mem_jobs_setStage _ _ _ _).mp hfound with ⟨old, hold, hset⟩
  split at hset
  · rename_i hsame
    refine ⟨old, hold, by rw [← hset], Or.inl ⟨hticketed.eq_of_ticket_eq hold hmem hsame, ?_⟩⟩
    rw [← hset]
  · rename_i hother
    refine ⟨old, hold, by rw [← hset], Or.inr ⟨?_, hset.symm⟩⟩
    rintro rfl
    exact hother rfl

theorem mem_broken_ended {log : List Entry} {job : Job} {ending : Ending} {thing : Nat}
    (h : thing ∈ broken (log ++ [.ended job ending])) :
    thing ∈ broken log ∨ (ending.poisons = true ∧ thing = job.collector.thing) := by
  rw [broken_append, List.mem_append] at h
  refine h.imp_right ?_
  cases hpoisons : ending.poisons with
  | true => simp [broken, hpoisons]
  | false => simp [broken, hpoisons]

theorem Intact.runs_whole (h : Intact c jobs dead) {job : Job} (hjob : job ∈ jobs)
    (hruns : job.isFinished = false) : job.collector.thing ∉ dead := by
  intro hdead
  rw [Job.isFinished, h.whole job hjob hdead] at hruns
  cases hruns

/-- A job that panics breaks its collector, and only that. -/
theorem Intact.finish {s : Scheduler} {log : List Entry} {job : Job}
    (h : Intact s.collectors s.jobs (broken log)) (hticketed : s.Ticketed)
    (hjob : s.job? job.ticket = some job) (hruns : job.isFinished = false) (ending : Ending) :
    Intact (s.finish job ending.outcome ending.poisons).collectors
      (s.finish job ending.outcome ending.poisons).jobs (broken (log ++ [.ended job ending])) := by
  have hmem := (Scheduler.mem_of_job? hjob).1
  have hthings := Scheduler.map_setStage (fun job => job.collector.thing) (fun _ _ => rfl)
    (s.report job.task ending.outcome) job.ticket (.finished ending.poisons)
  exact
    { idle := by
        intro slot thing hslot
        rcases h.idle slot thing hslot with ⟨hlt, hdead, hnone⟩
        refine ⟨hlt, ?_, ?_⟩
        · intro hnew
          rcases mem_broken_ended hnew with hlog | ⟨-, rfl⟩
          · exact hdead hlog
          · exact hnone job hmem rfl
        · intro found hfound
          rcases mem_jobs_finish hticketed hmem hfound with ⟨old, hold, hsame, -⟩
          rw [hsame]
          exact hnone old hold
      once := h.once
      apart := by
        rw [show (s.finish job ending.outcome ending.poisons).jobs.map
          (fun job => job.collector.thing) = s.jobs.map fun job => job.collector.thing from hthings]
        exact h.apart
      lent := by
        intro found hfound
        rcases mem_jobs_finish hticketed hmem hfound with ⟨old, hold, hsame, -⟩
        rw [hsame]
        exact h.lent old hold
      whole := by
        intro found hfound hdead
        rcases mem_jobs_finish hticketed hmem hfound with
          ⟨old, hold, hsame, ⟨rfl, hstage⟩ | ⟨hother, rfl⟩⟩
        · rw [hsame] at hdead
          rcases mem_broken_ended hdead with hlog | ⟨hpoisons, -⟩
          · exact absurd hlog (h.runs_whole hmem hruns)
          · rw [hstage, hpoisons]
        · rcases mem_broken_ended hdead with hlog | ⟨-, hthing⟩
          · exact h.whole _ hold hlog
          · exact absurd (List.inj_on_of_nodup_map h.apart hold hmem hthing) hother
      made := by
        intro thing hthing
        rcases mem_broken_ended hthing with hlog | ⟨-, rfl⟩
        · exact h.made thing hlog
        · exact h.lent job hmem }

variable {fails : Nat -> Option Failure} {n : Nat} {l m : Ledger}

theorem Intact.step (h : Intact l.1.collectors l.1.jobs (broken l.2)) (hl : l.1.Orderly n)
    (hstep : Step fails l m) : Intact m.1.collectors m.1.jobs (broken m.2) := by
  cases hstep with
  | served hserves =>
      have hbroken : broken m.2 = broken l.2 := by rw [broken, broken, ends_of_serves hserves]
      rw [hbroken]
      cases hserves with
      | handed hpop hacquire => exact h.acquire hacquire
      | refused hpop hacquire => simpa using h.acquire_error hacquire
  | swept s log =>
      refine Scheduler.sweep_induction (P := fun c jobs => Intact c jobs (broken log)) ?_ _ _ h
      intro c before job after hfinished hintact
      exact hintact.giveBack hfinished
  | synced s log syncing => exact h
  | ended ending hjob hruns => exact h.finish hl.ticketed hjob hruns ending

end Drain
end SymbolIndex
