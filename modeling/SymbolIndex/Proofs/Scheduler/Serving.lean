import Mathlib.Logic.Relation
import SymbolIndex.Proofs.Scheduler.Conservation
import SymbolIndex.Proofs.Task.Queue
import SymbolIndex.Scheduler.Drain

/-!
# The steps of a drain

Whatever happens in a drain is made of steps of a few kinds: the first task in line is
handed out or refused, finished jobs are swept up, handing out is held up or let go on,
and a job ends. A property holds throughout a drain if each kind of step keeps it.
-/

namespace SymbolIndex

/-- A scheduler with the log of what happened. -/
abbrev Ledger := Scheduler × List Entry

namespace Drain

/-- The first task in line is handed out, or refused for want of a collector. -/
inductive Serves (fails : Nat -> Option Failure) : Ledger -> Ledger -> Prop where
  | handed {s : Scheduler} {log : List Entry} {task : Task} {queue : TaskQueue}
      {collector : Borrowed Nat} {collectors : CollectorPool}
      (hpop : s.queue.pop = (some task, queue))
      (hacquire : s.collectors.acquire fails = some (.ok collector, collectors)) :
      Serves fails (s, log)
        ({ s with queue, collectors }.assign task collector,
          log ++ if s.collectors.pool.mustConstruct
            then [.construction task.file (some collector.thing)] else [])
  | refused {s : Scheduler} {log : List Entry} {task : Task} {queue : TaskQueue}
      {failure : Failure} {collectors : CollectorPool}
      (hpop : s.queue.pop = (some task, queue))
      (hacquire : s.collectors.acquire fails = some (.error failure, collectors)) :
      Serves fails (s, log)
        ({ s with queue, collectors }.refuse task failure, log ++ [.construction task.file none])

inductive Step (fails : Nat -> Option Failure) : Ledger -> Ledger -> Prop where
  | served {l m : Ledger} (h : Serves fails l m) : Step fails l m
  | swept (s : Scheduler) (log : List Entry) : Step fails (s, log) (s.freeSlots, log)
  | synced (s : Scheduler) (log : List Entry) (syncing : Nat) :
      Step fails (s, log) ({ s with syncing }, log)
  | ended {s : Scheduler} {log : List Entry} {job : Job} (ending : Ending)
      (hjob : s.job? job.ticket = some job) (hruns : job.isFinished = false) :
      Step fails (s, log)
        (s.finish job ending.outcome ending.poisons, log ++ [.ended job ending])

/-- Any number of steps. -/
abbrev Steps (fails : Nat -> Option Failure) : Ledger -> Ledger -> Prop :=
  Relation.ReflTransGen (Step fails)

end Drain

namespace Scheduler

/-!
# Sweeping up
-/

theorem giveBack_of_runs (c : CollectorPool) {job : Job} (h : job.isFinished = false) :
    giveBack c job = c := by
  unfold Job.isFinished at h
  unfold giveBack
  cases hstage : job.stage with
  | finished poisoned => simp [hstage] at h
  | assigned => rfl
  | reading path status => rfl
  | collected status results => rfl

theorem sweep_induction {P : CollectorPool -> List Job -> Prop}
    (hgo : forall c before job after, job.isFinished = true -> P c (before ++ job :: after) ->
      P (giveBack c job) (before ++ after))
    (c : CollectorPool) (jobs : List Job) (h : P c jobs) :
    P (jobs.foldl giveBack c) (jobs.filter fun job => !job.isFinished) := by
  -- the jobs that were passed over stay in front of those that are still to be looked at
  have hrest : forall (rest : List Job) (c : CollectorPool) (before : List Job),
      P c (before ++ rest) ->
        P (rest.foldl giveBack c) (before ++ rest.filter fun job => !job.isFinished) := by
    intro rest
    induction rest with
    | nil => exact fun c before hP => hP
    | cons job rest ih =>
        intro c before hP
        cases hfinished : job.isFinished with
        | true =>
            rw [List.foldl_cons, List.filter_cons_of_neg (by simp [hfinished])]
            exact ih _ before (hgo c before job rest hfinished hP)
        | false =>
            rw [List.foldl_cons, giveBack_of_runs c hfinished,
              List.filter_cons_of_pos (by simp [hfinished]), List.append_cons]
            exact ih c (before ++ [job]) (by rwa [← List.append_cons])
  exact hrest jobs c [] h

theorem placed_freeSlots (s : Scheduler) :
    s.freeSlots.placed.Perm s.placed ∧ s.freeSlots.capacity = s.capacity := by
  refine sweep_induction (P := fun c jobs =>
    (c.pool.free ++ jobs.map fun job => job.collector.slot).Perm s.placed ∧
      c.pool.capacity = s.capacity) ?_ s.collectors s.jobs ⟨List.Perm.refl _, rfl⟩
  rintro c before job after hfinished ⟨hplaced, hcapacity⟩
  rcases free_giveBack (c := c) hfinished with ⟨hfree, hsame⟩
  refine ⟨List.Perm.trans ?_ hplaced, hsame.trans hcapacity⟩
  rw [hfree, List.map_append, List.map_append, List.map_cons, List.cons_append]
  exact List.perm_middle.symm.trans (List.Perm.append_left _ List.perm_middle.symm)

/-!
# A scheduler in order
-/

/-- What holds of a scheduler whose pool has `n` slots throughout a drain. -/
structure Orderly (n : Nat) (s : Scheduler) : Prop where
  queue : s.queue.Sound
  ticketed : s.Ticketed
  capacity : s.capacity = n
  slots : s.placed.Perm (List.range n)
  enabled : s.enabled = true
  retries : forall file, (s.retries.get? file).getD 0 ≤ retryLimit

theorem orderly_enqueue (n : Nat) (tasks : List Task) :
    Orderly (max n 1) ((ofCapacity n).enqueue tasks) where
  queue := TaskQueue.sound_empty.addOrUpdate tasks
  ticketed := (ticketed_ofCapacity n).of_jobs_eq rfl rfl
  capacity := by
    simp [enqueue, ofCapacity, Scheduler.capacity, CollectorPool.ofCapacity, Pool.ofCapacity,
      Pool.capacity]
  slots := by simp [enqueue, ofCapacity, placed, CollectorPool.ofCapacity, Pool.ofCapacity]
  enabled := rfl
  retries := by
    intro file
    exact Nat.zero_le _

variable {n : Nat} {s : Scheduler}

theorem Orderly.available_add_pending (h : s.Orderly n) :
    s.collectors.pool.available + s.pending = n := by
  rw [← length_placed, h.slots.length_eq, List.length_range]

theorem Orderly.freeSlots (h : s.Orderly n) : s.freeSlots.Orderly n where
  queue := h.queue
  ticketed := h.ticketed.freeSlots
  capacity := (placed_freeSlots s).2.trans h.capacity
  slots := (placed_freeSlots s).1.trans h.slots
  enabled := h.enabled
  retries := h.retries

theorem Orderly.assign (h : s.Orderly n) {fails : Nat -> Option Failure} {task : Task}
    {queue : TaskQueue} {collector : Borrowed Nat} {collectors : CollectorPool}
    (hpop : s.queue.pop = (some task, queue))
    (hacquire : s.collectors.acquire fails = some (.ok collector, collectors)) :
    ({ s with queue, collectors }.assign task collector).Orderly n := by
  rcases CollectorPool.free_of_acquire_ok hacquire with ⟨hfree, hcapacity⟩
  have htaken : Ticketed { s with queue, collectors } := h.ticketed.of_jobs_eq rfl rfl
  exact
    { queue := (h.queue.get?_of_pop hpop).2.1
      ticketed := htaken.assign task collector
      capacity := hcapacity.trans h.capacity
      slots := by
        refine List.Perm.trans ?_ h.slots
        simp only [placed, Scheduler.assign, List.map_append, List.map_cons, List.map_nil, hfree]
        rw [← List.append_assoc, List.cons_append]
        exact List.perm_append_singleton _ _
      enabled := h.enabled
      retries := by
        intro file
        simp only [Scheduler.assign, Table.get?_erase]
        split
        · exact Nat.zero_le _
        · exact h.retries file }

theorem Orderly.refuse_eq (h : s.Orderly n) {task : Task} {queue : TaskQueue}
    (hpop : s.queue.pop = (some task, queue)) (collectors : CollectorPool) (failure : Failure) :
    { s with queue, collectors }.refuse task failure =
      if retryLimit ≤ (s.retries.get? task.file).getD 0 then
        { s with queue, collectors, retries := s.retries.erase task.file }.report task
          (.collectorUnavailable failure.message)
      else
        { s with
          queue := queue.push task
          collectors
          retries := s.retries.insert task.file ((s.retries.get? task.file).getD 0 + 1) } := by
  have hgone : queue.contains task.file = false := by
    have hnone : queue.get? task.file = none := by
      rw [(h.queue.get?_of_pop hpop).2.2, if_pos rfl]
    exact (Table.contains_eq_false_iff _ _).mpr hnone
  unfold refuse
  simp only [hgone, Bool.false_eq_true, if_false, Nat.lt_succ_iff]

theorem Orderly.refuse (h : s.Orderly n) {fails : Nat -> Option Failure} {task : Task}
    {queue : TaskQueue} {failure : Failure} {collectors : CollectorPool}
    (hpop : s.queue.pop = (some task, queue))
    (hacquire : s.collectors.acquire fails = some (.error failure, collectors)) :
    ({ s with queue, collectors }.refuse task failure).Orderly n := by
  rcases CollectorPool.free_of_acquire_error hacquire with ⟨hfree, hcapacity⟩
  have hsound := (h.queue.get?_of_pop hpop).2.1
  have hslots : (collectors.pool.free ++ s.jobs.map fun job => job.collector.slot).Perm
      (List.range n) := by
    rw [hfree]
    exact h.slots
  rw [h.refuse_eq hpop]
  split
  · exact
      { queue := hsound
        ticketed := h.ticketed.of_jobs_eq rfl rfl
        capacity := hcapacity.trans h.capacity
        slots := hslots
        enabled := h.enabled
        retries := by
          intro file
          simp only [report, Table.get?_erase]
          split
          · exact Nat.zero_le _
          · exact h.retries file }
  · rename_i hfew
    exact
      { queue := hsound.push task
        ticketed := h.ticketed.of_jobs_eq rfl rfl
        capacity := hcapacity.trans h.capacity
        slots := hslots
        enabled := h.enabled
        retries := by
          intro file
          simp only [Table.get?_insert]
          split
          · exact Nat.not_le.mp hfew
          · exact h.retries file }

theorem Orderly.finish (h : s.Orderly n) (job : Job) (outcome : TaskOutcome) (poisoned : Bool) :
    (s.finish job outcome poisoned).Orderly n where
  queue := h.queue
  ticketed := h.ticketed.finish job outcome poisoned
  capacity := h.capacity
  slots := by
    rw [placed_finish]
    exact h.slots
  enabled := h.enabled
  retries := h.retries

end Scheduler

namespace Drain

variable {fails : Nat -> Option Failure} {n : Nat} {l m : Ledger}

theorem Serves.orderly (h : Serves fails l m) (hl : l.1.Orderly n) : m.1.Orderly n := by
  cases h with
  | handed hpop hacquire => exact hl.assign hpop hacquire
  | refused hpop hacquire => exact hl.refuse hpop hacquire

theorem Step.orderly (h : Step fails l m) (hl : l.1.Orderly n) : m.1.Orderly n := by
  cases h with
  | served h => exact h.orderly hl
  | swept s log => exact hl.freeSlots
  | synced s log syncing =>
      exact
        { queue := hl.queue
          ticketed := hl.ticketed.of_jobs_eq rfl rfl
          capacity := hl.capacity
          slots := hl.slots
          enabled := hl.enabled
          retries := hl.retries }
  | ended ending hjob hruns => exact hl.finish _ _ _

theorem Steps.induction {P : Ledger -> Prop}
    (hstep : forall {l m : Ledger}, l.1.Orderly n -> Step fails l m -> P l -> P m)
    (h : Steps fails l m) (hl : l.1.Orderly n) (hP : P l) : m.1.Orderly n ∧ P m := by
  induction h with
  | refl => exact ⟨hl, hP⟩
  | tail _hsteps hlast ih => exact ⟨hlast.orderly ih.1, hstep ih.1 hlast ih.2⟩

/-!
# Handing out serves one task after the other
-/

theorem exists_serves (fails : Nat -> Option Failure) (k : Nat) {s : Scheduler} {task : Task}
    {queue : TaskQueue} (hmay : s.mayDispatch = true) (hpop : s.queue.pop = (some task, queue))
    (hfree : s.collectors.pool.free ≠ []) (log : List Entry) :
    exists mid, Serves fails (s, log) mid ∧
      exists k', (Scheduler.launch fails (k + 1) s, log ++ Scheduler.launchLog fails (k + 1) s) =
        (Scheduler.launch fails k' mid.1, mid.2 ++ Scheduler.launchLog fails k' mid.1) ∧
        k' ≤ k := by
  cases hacquire : s.collectors.acquire fails with
  | none => exact absurd ((CollectorPool.acquire_eq_none_iff _ _).mp hacquire) hfree
  | some answer =>
      rcases answer with ⟨failure | collector, collectors⟩
      · refine ⟨_, .refused hpop hacquire, 0, ?_, Nat.zero_le _⟩
        simp [Scheduler.launch, Scheduler.launchLog, hmay, hpop, hacquire]
      · refine ⟨_, .handed hpop hacquire, k, ?_, Nat.le_refl _⟩
        simp [Scheduler.launch, Scheduler.launchLog, hmay, hpop, hacquire]

theorem launch_serves (k : Nat) {s : Scheduler} (h : s.Orderly n) (log : List Entry) :
    Relation.ReflTransGen (Serves fails) (s, log)
      (Scheduler.launch fails k s, log ++ Scheduler.launchLog fails k s) := by
  induction k using Nat.strongRecOn generalizing s log with
  | ind k ih =>
      cases k with
      | zero =>
          simp only [Scheduler.launch, Scheduler.launchLog, List.append_nil]
          exact .refl
      | succ k =>
          cases hmay : s.mayDispatch with
          | false =>
              simp only [Scheduler.launch, Scheduler.launchLog, hmay, Bool.not_false, if_true,
                List.append_nil]
              exact .refl
          | true =>
              rcases hpop : s.queue.pop with ⟨_ | task, queue⟩
              · simp only [Scheduler.launch, Scheduler.launchLog, hmay, hpop, Bool.not_true,
                  Bool.false_eq_true, if_false, List.append_nil, (h.queue.of_pop_none hpop).1]
                exact .refl
              · by_cases hfree : s.collectors.pool.free = []
                · have hnone := (CollectorPool.acquire_eq_none_iff s.collectors fails).mpr hfree
                  simp only [Scheduler.launch, Scheduler.launchLog, hmay, hpop, hnone,
                    Bool.not_true, Bool.false_eq_true, if_false, List.append_nil]
                  exact .refl
                · rcases exists_serves fails k hmay hpop hfree log with
                    ⟨mid, hserves, k', heq, hk'⟩
                  rw [heq]
                  exact .head hserves (ih k' (by omega) (hserves.orderly h) mid.2)

theorem dispatch_steps {s : Scheduler} (h : s.Orderly n) (log : List Entry) :
    Steps fails (s, log) (s.dispatch fails, log ++ s.dispatchLog fails) :=
  .head (.swept s log)
    (Relation.ReflTransGen.mono (fun _ _ => .served) _ _ (launch_serves _ h.freeSlots log))

/-!
# Turns
-/

theorem perform_steps {d d' : Drain} {rest : List Chore} {chore : Chore}
    (h : d.scheduler.Orderly n) (hperform : d.perform fails rest chore = some d') :
    Steps fails (d.scheduler, d.log) (d'.scheduler, d'.log) := by
  cases chore with
  | enterSync =>
      cases hperform
      exact .single (.synced _ _ _)
  | leaveSync tickets =>
      simp only [perform] at hperform
      split at hperform
      · cases hperform
        exact .single (.synced _ _ _)
      · cases hperform
  | sweep =>
      cases hperform
      exact .single (.swept _ _)
  | dispatch =>
      cases hperform
      exact dispatch_steps h d.log
  | check =>
      cases hperform
      exact .refl

theorem turn_steps {d d' : Drain} {turn : Turn} (h : d.scheduler.Orderly n)
    (hturn : d.turn? fails turn = some d') :
    Steps fails (d.scheduler, d.log) (d'.scheduler, d'.log) := by
  cases turn with
  | wait =>
      simp only [turn?] at hturn
      split at hturn
      · cases hturn
      · exact perform_steps h hturn
  | handOut =>
      simp only [turn?] at hturn
      split at hturn
      · cases hturn
      · cases hturn
        exact dispatch_steps h d.log
  | finish ticket ending =>
      simp only [turn?] at hturn
      split at hturn
      · rename_i job hjob
        split at hturn
        · cases hturn
        · rename_i hruns
          cases hturn
          refine .single (.ended ending ?_ (by simpa using hruns))
          rw [(Scheduler.mem_of_job? hjob).2]
          exact hjob
      · cases hturn

end Drain
end SymbolIndex
