import SymbolIndex.Proofs.Scheduler.Jobs
import SymbolIndex.Scheduler.Crew

/-!
# Where the collectors are

Every slot of the pool is free, held by one job, or lost. A slot gets lost when a sweep
finds a job running at its first look and finished at its second: the job goes off the
list and nobody gives its collector back. Nothing else loses a slot, so the numbers of
free slots and of pending jobs add up to the capacity exactly as long as no second look
finds its job finished, and then handing out never waits for a collector.
-/

namespace SymbolIndex

namespace Scheduler

/-- The slots that are free or held by a job. -/
def placed (s : Scheduler) : List Nat :=
  s.collectors.pool.free ++ s.jobs.map fun job => job.collector.slot

theorem length_placed (s : Scheduler) :
    s.placed.length = s.collectors.pool.available + s.pending := by
  simp [placed, Pool.available, pending]

/-!
# Handing out moves slots from the pool to jobs
-/

theorem launch_placed (fails : Nat -> Option Failure) (n : Nat) (s : Scheduler) :
    (launch fails n s).placed.Perm s.placed ∧ (launch fails n s).capacity = s.capacity := by
  refine launch_induction (P := fun t => t.placed.Perm s.placed ∧ t.capacity = s.capacity)
    ?_ ?_ ?_ n s ⟨List.Perm.refl _, rfl⟩
  · intro t queue ht _hpop
    exact ht
  · intro t task queue collector collectors ht _hmay _hpop hacquire
    rcases CollectorPool.free_of_acquire_ok hacquire with ⟨hfree, hcapacity⟩
    refine ⟨List.Perm.trans ?_ ht.1, hcapacity.trans ht.2⟩
    simp only [placed, assign, List.map_append, List.map_cons, List.map_nil, hfree]
    rw [← List.append_assoc, List.cons_append]
    exact List.perm_append_singleton _ _
  · intro t task queue failure collectors ht _hmay _hpop hacquire
    rcases CollectorPool.free_of_acquire_error hacquire with ⟨hfree, hcapacity⟩
    constructor
    · simpa [placed, hfree] using ht.1
    · simpa [capacity, hcapacity] using ht.2

/-- Whether a round of handing out up to `n` tasks comes to wait for a free slot. -/
def waits (fails : Nat -> Option Failure) : Nat -> Scheduler -> Bool
  | 0, _ => false
  | n + 1, s =>
      if !s.mayDispatch then false
      else match s.queue.pop with
        | (none, _) => false
        | (some task, queue) =>
            match s.collectors.acquire fails with
            | none => true
            | some (.ok collector, collectors) =>
                waits fails n ({ s with queue, collectors }.assign task collector)
            | some (.error _, _) => false

theorem waits_eq_false_of_le {fails : Nat -> Option Failure} {n : Nat} {s : Scheduler}
    (h : n ≤ s.collectors.pool.available) : waits fails n s = false := by
  induction n generalizing s with
  | zero => rfl
  | succ n ih =>
      rw [waits]
      cases s.mayDispatch with
      | false => rfl
      | true =>
          rcases s.queue.pop with ⟨_ | task, queue⟩
          · rfl
          · cases hacquire : s.collectors.acquire fails with
            | none =>
                have hfree := (CollectorPool.acquire_eq_none_iff s.collectors fails).mp hacquire
                simp [Pool.available, hfree] at h
            | some answer =>
                rcases answer with ⟨failure | collector, collectors⟩
                · rfl
                · rcases CollectorPool.free_of_acquire_ok hacquire with ⟨hfree, _hcapacity⟩
                  simp only [Bool.not_true, Bool.false_eq_true, if_false]
                  apply ih
                  simp only [Pool.available, hfree, List.length_cons] at h
                  simp only [assign, Pool.available]
                  omega

/-!
# Sweeping up moves slots from jobs to the pool
-/

theorem free_giveBack {c : CollectorPool} {job : Job} (h : job.isFinished = true) :
    (giveBack c job).pool.free = job.collector.slot :: c.pool.free ∧
      (giveBack c job).pool.capacity = c.pool.capacity := by
  unfold Job.isFinished at h
  unfold giveBack
  cases hstage : job.stage with
  | finished poisoned =>
      cases poisoned with
      | false => exact ⟨rfl, Pool.capacity_release _ _⟩
      | true => exact ⟨rfl, Pool.capacity_discard _ _⟩
  | assigned => simp [hstage] at h
  | reading path status => simp [hstage] at h
  | collected status results => simp [hstage] at h

theorem placed_finish (s : Scheduler) (job : Job) (outcome : TaskOutcome) (poisoned : Bool) :
    (s.finish job outcome poisoned).placed = s.placed := by
  simp only [placed, finish, map_setStage (fun job => job.collector.slot) fun _ _ => rfl]
  rfl

end Scheduler

namespace Crew

theorem ticketed_strike {s : Scheduler} (h : s.Ticketed) (ticket : Nat) :
    (strike s ticket).Ticketed :=
  h.of_sublist (List.Sublist.map _ List.filter_sublist) rfl

theorem perm_strike {s : Scheduler} (h : s.Ticketed) {ticket : Nat} {job : Job}
    (hjob : s.job? ticket = some job) : s.jobs.Perm (job :: (strike s ticket).jobs) := by
  rcases Scheduler.mem_of_job? hjob with ⟨hmem, hticket⟩
  have hsame : s.jobs.filter (fun other => decide (other.ticket = ticket)) = [job] := by
    have hnodup : s.jobs.Nodup :=
      List.Nodup.of_map _ (h.increasing.imp (fun hlt => Nat.ne_of_lt hlt))
    refine List.perm_singleton.mp ((List.perm_ext_iff_of_nodup (hnodup.filter _)
      (List.nodup_singleton job)).mpr ?_)
    intro other
    rw [List.mem_filter, List.mem_singleton]
    constructor
    · rintro ⟨hother, heq⟩
      exact h.eq_of_ticket_eq hother hmem (by rw [hticket]; simpa using heq)
    · rintro rfl
      exact ⟨hmem, by simpa using hticket⟩
  have hsplit := List.filter_append_perm (fun other : Job => decide (other.ticket = ticket)) s.jobs
  rw [hsame] at hsplit
  simpa [strike] using hsplit.symm

/-!
# Slots that get lost
-/

/-- The slot that a move loses: the one of a job that ends between the looks of a sweep. -/
def lostBy (c : Crew) : Move -> List Nat
  | .look =>
      match c.sweep with
      | some ⟨ticket :: _, true⟩ =>
          match c.scheduler.job? ticket with
          | some job => if job.isFinished then [job.collector.slot] else []
          | none => []
      | _ => []
  | _ => []

theorem lostBy_of_ne_look (c : Crew) {m : Move} (h : m ≠ .look) : c.lostBy m = [] := by
  cases m with
  | look => exact absurd rfl h
  | ask request => rfl
  | go thread => rfl
  | finish ticket outcome poisoned => rfl

/-- The slots that get lost in a run. -/
def lost (fails : Nat -> Option Failure) (c : Crew) : List Move -> List Nat
  | [] => []
  | m :: rest =>
      c.lostBy m ++ match move? fails c m with
        | some next => lost fails next rest
        | none => []

/-- Each of `n` slots is free, held by one job, or among those lost. -/
structure Accounted (n : Nat) (gone : List Nat) (c : Crew) : Prop where
  ticketed : c.scheduler.Ticketed
  capacity : c.scheduler.capacity = n
  slots : (c.scheduler.placed ++ gone).Perm (List.range n)

theorem accounted_start (n : Nat) : Accounted (max n 1) [] (start (.ofCapacity n)) where
  ticketed := Scheduler.ticketed_ofCapacity n
  capacity := by
    simp [start, Scheduler.ofCapacity, Scheduler.capacity, CollectorPool.ofCapacity,
      Pool.ofCapacity, Pool.capacity]
  slots := by
    simp [start, Scheduler.ofCapacity, Scheduler.placed, CollectorPool.ofCapacity,
      Pool.ofCapacity]

theorem Accounted.of_same {n : Nat} {gone : List Nat} {c d : Crew} (h : Accounted n gone c)
    (hjobs : d.scheduler.jobs = c.scheduler.jobs)
    (hnext : d.scheduler.nextTicket = c.scheduler.nextTicket)
    (hcollectors : d.scheduler.collectors = c.scheduler.collectors) : Accounted n gone d where
  ticketed := h.ticketed.of_jobs_eq hjobs hnext
  capacity := by
    rw [Scheduler.capacity, hcollectors]
    exact h.capacity
  slots := by
    rw [Scheduler.placed, hjobs, hcollectors]
    exact h.slots

theorem accounted_perform {fails : Nat -> Option Failure} {n : Nat} {gone : List Nat}
    {c d : Crew} {errand : Errand} {more : List Errand} (h : Accounted n gone c)
    (hperform : perform fails c errand = some (d, more)) : Accounted n gone d := by
  cases errand with
  | enqueue tasks =>
      cases hperform
      exact h.of_same rfl rfl rfl
  | drop files =>
      cases hperform
      exact h.of_same rfl rfl rfl
  | disable =>
      simp only [perform] at hperform
      split at hperform
      · cases hperform
      · cases hperform
        exact h.of_same rfl rfl rfl
  | sweep =>
      simp only [perform] at hperform
      split at hperform
      · cases hperform
      · cases hperform
        exact h.of_same rfl rfl rfl
  | launch =>
      simp only [perform] at hperform
      split at hperform
      · cases hperform
      · cases hperform
        have hlaunch := Scheduler.launch_placed fails
          (c.scheduler.capacity - c.scheduler.jobs.length) c.scheduler
        exact
          { ticketed := h.ticketed.launch fails _
            capacity := hlaunch.2.trans h.capacity
            slots := (hlaunch.1.append_right gone).trans h.slots }
  | enterSync =>
      simp only [perform] at hperform
      split at hperform
      · cases hperform
      · cases hperform
        exact h.of_same rfl rfl rfl
  | leaveSync tickets =>
      simp only [perform] at hperform
      split at hperform
      · cases hperform
      · cases hperform
        exact h.of_same rfl rfl rfl

/-- A look at a job keeps the account, with the slot it loses, if any, on the list of the lost. -/
theorem accounted_look {n : Nat} {gone : List Nat} {c d : Crew} {w : Sweep}
    (h : Accounted n gone c) (hsweep : c.sweep = some w) (hlook : look c w = some d) :
    Accounted n (gone ++ c.lostBy .look) d := by
  rcases w with ⟨_ | ⟨ticket, rest⟩, looked⟩
  · cases hlook
    have hnone : c.lostBy .look = [] := by simp [lostBy, hsweep]
    rw [hnone, List.append_nil]
    exact h.of_same rfl rfl rfl
  · cases hjob : c.scheduler.job? ticket with
    | none => simp [look, hjob] at hlook
    | some job =>
        have hperm := perm_strike h.ticketed hjob
        have hslots := hperm.map fun job => job.collector.slot
        cases hfinished : job.isFinished with
        | false =>
            cases looked with
            | false =>
                simp only [look, hjob, hfinished, Option.bind_eq_bind, Option.bind_some] at hlook
                cases hlook
                have hnone : c.lostBy .look = [] := by simp [lostBy, hsweep]
                rw [hnone, List.append_nil]
                exact h.of_same rfl rfl rfl
            | true =>
                simp only [look, hjob, hfinished, Option.bind_eq_bind, Option.bind_some] at hlook
                cases hlook
                have hnone : c.lostBy .look = [] := by simp [lostBy, hsweep, hjob, hfinished]
                rw [hnone, List.append_nil]
                exact h.of_same rfl rfl rfl
        | true =>
            cases looked with
            | false =>
                -- the job leaves the list and its slot goes on top of the free ones
                simp only [look, hjob, hfinished, Option.bind_eq_bind, Option.bind_some] at hlook
                cases hlook
                rcases Scheduler.free_giveBack (c := c.scheduler.collectors) hfinished with
                  ⟨hfree, hcapacity⟩
                refine ⟨(ticketed_strike h.ticketed ticket).of_jobs_eq rfl rfl,
                  hcapacity.trans h.capacity, ?_⟩
                simp only [lostBy, hsweep, List.append_nil]
                refine List.Perm.trans (List.Perm.append_right gone ?_) h.slots
                simp only [Scheduler.placed, strike, hfree, List.cons_append]
                exact (List.perm_middle.symm).trans (List.Perm.append_left _ hslots.symm)
            | true =>
                -- the job leaves the list and nobody gives its slot back
                simp only [look, hjob, hfinished, Option.bind_eq_bind, Option.bind_some] at hlook
                cases hlook
                refine ⟨(ticketed_strike h.ticketed ticket).of_jobs_eq rfl rfl, h.capacity, ?_⟩
                simp only [lostBy, hsweep, hjob, hfinished, if_true]
                refine List.Perm.trans ?_ h.slots
                rw [← List.append_assoc]
                apply (List.perm_append_singleton _ _).trans
                rw [← List.cons_append]
                apply List.Perm.append_right gone
                simp only [Scheduler.placed]
                exact (List.perm_middle.symm).trans (List.Perm.append_left _ hslots.symm)

theorem accounted_move {fails : Nat -> Option Failure} {n : Nat} {gone : List Nat}
    {c d : Crew} {m : Move} (h : Accounted n gone c) (hmove : move? fails c m = some d) :
    Accounted n (gone ++ c.lostBy m) d := by
  cases m with
  | ask request =>
      cases hmove
      rw [lostBy_of_ne_look c (by simp), List.append_nil]
      exact h.of_same rfl rfl rfl
  | go thread =>
      simp only [move?] at hmove
      split at hmove
      · rcases Option.bind_eq_some_iff.mp hmove with ⟨⟨next, more⟩, hperform, hdone⟩
        cases hdone
        rw [lostBy_of_ne_look c (by simp), List.append_nil]
        exact (accounted_perform h hperform).of_same rfl rfl rfl
      · cases hmove
  | look =>
      rcases Option.bind_eq_some_iff.mp hmove with ⟨w, hsweep, hlook⟩
      exact accounted_look h hsweep hlook
  | finish ticket outcome poisoned =>
      simp only [move?] at hmove
      split at hmove
      · split at hmove
        · cases hmove
        · cases hmove
          rw [lostBy_of_ne_look c (by simp), List.append_nil]
          refine ⟨h.ticketed.finish _ outcome poisoned, h.capacity, ?_⟩
          simpa [Scheduler.placed_finish] using h.slots
      · cases hmove

theorem accounted_run {fails : Nat -> Option Failure} {n : Nat} {gone : List Nat} {c d : Crew}
    {moves : List Move} (h : Accounted n gone c) (hrun : run? fails c moves = some d) :
    Accounted n (gone ++ lost fails c moves) d := by
  induction moves generalizing c gone with
  | nil =>
      cases hrun
      simpa [lost] using h
  | cons m rest ih =>
      rw [run?, List.foldlM_cons] at hrun
      rcases Option.bind_eq_some_iff.mp hrun with ⟨next, hmove, hrest⟩
      have hnext := ih (accounted_move h hmove) hrest
      simpa [lost, hmove, List.append_assoc] using hnext

/-!
# The account of a run
-/

/--
Where the collectors of a pool of `n` are after any run. Each slot is free, held by one
job on the list or lost, so a collector that leaves the list with its job was given back
exactly once unless it was lost. Free slots and pending jobs make up the capacity if and
only if no sweep found a job running at its first look and finished at its second, and
in that case no round of handing out comes to wait for a collector.
-/
theorem available_add_pending_eq_capacity_iff {fails : Nat -> Option Failure} {n : Nat}
    {moves : List Move} {c : Crew} (hrun : run? fails (start (.ofCapacity n)) moves = some c) :
    (c.scheduler.placed ++ lost fails (start (.ofCapacity n)) moves).Perm
        (List.range c.scheduler.capacity) ∧
      (c.scheduler.collectors.pool.available + c.scheduler.pending = c.scheduler.capacity ↔
        lost fails (start (.ofCapacity n)) moves = []) ∧
      (lost fails (start (.ofCapacity n)) moves = [] ->
        c.scheduler.waits fails (c.scheduler.capacity - c.scheduler.pending) = false) := by
  have haccount := accounted_run (accounted_start n) hrun
  rw [List.nil_append] at haccount
  have hslots := haccount.slots
  have hlength := hslots.length_eq
  rw [List.length_append, List.length_range, Scheduler.length_placed,
    ← haccount.capacity] at hlength
  refine ⟨by rw [haccount.capacity]; exact hslots, ?_, ?_⟩
  · constructor
    · intro hconserved
      apply List.eq_nil_of_length_eq_zero
      omega
    · intro hnone
      rw [hnone, List.length_nil] at hlength
      exact hlength
  · intro hnone
    rw [hnone, List.length_nil] at hlength
    apply Scheduler.waits_eq_false_of_le
    omega

/--
Two tasks are handed out. A sweep looks twice at each of the two jobs and finds them
running, one job breaks down meanwhile, and the sweep of its worker gives its slot back.
-/
def breakdownMoves : List Move :=
  [.ask (.submit [⟨⟨1⟩, ⟨"part"⟩, []⟩, ⟨⟨2⟩, ⟨"part"⟩, []⟩]), .go 0, .go 0, .look, .go 0,
    .ask .freeSlots, .go 1, .look, .look, .finish 0 (.parseFailed "broken") true, .look, .look,
    .look, .go 2, .look, .look, .look, .look, .go 2]

theorem breakdownMoves_conserve :
    exists c, run? (fun _ => none) (start (.ofCapacity 2)) breakdownMoves = some c ∧
      c.isQuiet = true ∧
      c.scheduler.collectors.pool.available + c.scheduler.pending = c.scheduler.capacity := by
  refine ⟨_, rfl, by decide, ?_⟩
  have haccount := @available_add_pending_eq_capacity_iff (fun _ => none) 2 breakdownMoves _ rfl
  exact haccount.2.1.mpr (by decide)

/-- A task is handed out and ends between the two looks of a sweep. -/
def slipMoves : List Move :=
  [.ask (.submit [⟨⟨1⟩, ⟨"part"⟩, []⟩]), .go 0, .go 0, .look, .go 0, .ask .freeSlots, .go 1,
    .look, .finish 0 .unchanged false, .look, .look, .go 2, .look, .go 2]

/--
After the slip nobody has anything left to do, but the only collector is neither free nor
held by a job, and the next task that is handed out waits for it.
-/
theorem slipMoves_lose_the_collector :
    exists c, run? (fun _ => none) (start (.ofCapacity 1)) slipMoves = some c ∧
      c.isQuiet = true ∧
      c.scheduler.collectors.pool.available + c.scheduler.pending ≠ c.scheduler.capacity ∧
      exists d, run? (fun _ => none) c
          [.ask (.submit [⟨⟨2⟩, ⟨"part"⟩, []⟩]), .go 3, .go 3, .look] = some d ∧
        d.isLocked = false ∧
        d.scheduler.waits (fun _ => none) (d.scheduler.capacity - d.scheduler.pending) = true := by
  exact ⟨_, rfl, by decide, by decide, _, rfl, by decide, by decide⟩

end Crew
end SymbolIndex
