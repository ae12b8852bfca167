import Mathlib.Algebra.GroupWithZero.Nat
import SymbolIndex.Proofs.Scheduler.Serving

/-!
# Effort

The effort left in a scheduler counts what can still happen to its tasks and jobs when
nothing is queued any more: the attempts at a collector that a task in line has left,
that a worker takes it and ends it, and that its job is swept up. Serving a task and
ending a job take some of it, and so does a sweep that finds a finished job.
-/

namespace SymbolIndex
namespace Drain

/-!
# The jobs that run
-/

theorem running_assign (s : Scheduler) (task : Task) (collector : Borrowed Nat) :
    (running (s.assign task collector)).length = (running s).length + 1 := by
  simp [running, Scheduler.assign, List.filter_append, Job.isFinished]

theorem running_freeSlots (s : Scheduler) : running s.freeSlots = running s := by
  simp [running, Scheduler.freeSlots, List.filter_filter]

theorem running_finish {s : Scheduler} (h : s.Ticketed) {job : Job}
    (hjob : s.job? job.ticket = some job) (hruns : job.isFinished = false)
    (outcome : TaskOutcome) (poisoned : Bool) :
    (running s).length = (running (s.finish job outcome poisoned)).length + 1 := by
  have hothers : forall jobs : List Job,
      (jobs.map fun other => if other.ticket = job.ticket
        then { other with stage := .finished poisoned } else other).filter
          (fun other => !other.isFinished) =
        (jobs.filter fun other => decide (other.ticket ≠ job.ticket)).filter
          fun other => !other.isFinished := by
    intro jobs
    induction jobs with
    | nil => rfl
    | cons other rest ih =>
        by_cases hsame : other.ticket = job.ticket
        · simpa [hsame, Job.isFinished] using ih
        · simp only [List.map_cons, hsame, if_false, List.filter_cons, ih, ne_eq,
            not_false_eq_true, decide_true, if_true]
  have hperm := (Crew.perm_strike h hjob).filter fun other => !other.isFinished
  have hlength := hperm.length_eq
  rw [List.filter_cons_of_pos (by simp [hruns]), List.length_cons] at hlength
  rw [running, hlength, running, Scheduler.finish, Scheduler.setStage]
  exact congrArg (fun jobs => List.length jobs + 1) (hothers s.jobs).symm

theorem length_running_add_finished (s : Scheduler) :
    (running s).length + (s.jobs.filter Job.isFinished).length = s.jobs.length := by
  have hsplit := (List.filter_append_perm Job.isFinished s.jobs).length_eq
  rw [List.length_append] at hsplit
  rw [running, Nat.add_comm]
  exact hsplit

/-!
# Effort
-/

def attemptsLeft (s : Scheduler) (file : FileId) : Nat :=
  Scheduler.retryLimit + 1 - (s.retries.get? file).getD 0

def effort (s : Scheduler) : Nat :=
  (s.queue.toList.map fun task => attemptsLeft s task.file + 2).sum + s.jobs.length +
    (running s).length

variable {n : Nat} {s : Scheduler}

theorem effort_eq_zero_iff (h : s.Orderly n) : effort s = 0 ↔ s.isIdle = true := by
  have hidle : s.isIdle = true ↔ s.jobs = [] ∧ s.queue.toList = [] := by
    rw [Scheduler.isIdle, h.enabled, Bool.not_true, Bool.false_or, Bool.and_eq_true,
      List.isEmpty_iff, h.queue.isEmpty_iff_toList]
  rw [hidle, effort]
  constructor
  · intro hzero
    constructor
    · exact List.eq_nil_of_length_eq_zero (by omega)
    · cases hlist : s.queue.toList with
      | nil => rfl
      | cons task rest =>
          rw [hlist, List.map_cons, List.sum_cons] at hzero
          omega
  · rintro ⟨hjobs, hlist⟩
    simp [hjobs, hlist, running]

theorem attemptsLeft_rest (h : s.Orderly n) {task : Task} {queue : TaskQueue}
    (hpop : s.queue.pop = (some task, queue)) {t : Scheduler}
    (hretries : forall file, task.file ≠ file -> t.retries.get? file = s.retries.get? file) :
    (queue.toList.map fun other => attemptsLeft t other.file + 2) =
      queue.toList.map fun other => attemptsLeft s other.file + 2 := by
  have hsound := (h.queue.get?_of_pop hpop).2
  apply List.map_congr_left
  intro other hother
  have hget := (hsound.1.mem_toList_iff other).mp hother
  rw [hsound.2] at hget
  split at hget
  · cases hget
  · rename_i hne
    rw [attemptsLeft, attemptsLeft, hretries other.file hne]

variable {fails : Nat -> Option Failure} {l m : Ledger}

theorem effort_assign (h : s.Orderly n) {task : Task} {queue : TaskQueue}
    (hpop : s.queue.pop = (some task, queue)) (collector : Borrowed Nat)
    (collectors : CollectorPool) :
    effort ({ s with queue, collectors }.assign task collector) < effort s := by
  have hrest := attemptsLeft_rest h hpop
    (t := { s with queue, collectors }.assign task collector) fun file hne => by
      simp [Scheduler.assign, Table.get?_erase, hne]
  have hline : ({ s with queue, collectors }.assign task collector).queue = queue := rfl
  have hjobs : ({ s with queue, collectors }.assign task collector).jobs.length =
      s.jobs.length + 1 := by simp [Scheduler.assign]
  have hruns : (running ({ s with queue, collectors }.assign task collector)).length =
      (running s).length + 1 := running_assign _ task collector
  have hleft := h.retries task.file
  rw [effort, effort, hline, hrest, hjobs, hruns, h.queue.toList_of_pop hpop, List.map_cons,
    List.sum_cons, attemptsLeft]
  omega

theorem effort_refuse (h : s.Orderly n) {task : Task} {queue : TaskQueue}
    (hpop : s.queue.pop = (some task, queue)) (collectors : CollectorPool) (failure : Failure) :
    effort ({ s with queue, collectors }.refuse task failure) < effort s := by
  have hleft := h.retries task.file
  rcases h.queue.get?_of_pop hpop with ⟨-, hsound, hget⟩
  have hbefore : effort s =
      Scheduler.retryLimit + 1 - (s.retries.get? task.file).getD 0 + 2 +
        (queue.toList.map fun other => attemptsLeft s other.file + 2).sum + s.jobs.length +
          (running s).length := by
    rw [effort, h.queue.toList_of_pop hpop, List.map_cons, List.sum_cons, attemptsLeft]
  rw [h.refuse_eq hpop, hbefore]
  split
  · have hrest := attemptsLeft_rest h hpop
      (t := { s with queue, collectors, retries := s.retries.erase task.file }.report task
        (.collectorUnavailable failure.message)) fun file hne => by
          simp [Scheduler.report, Table.get?_erase, hne]
    have hafter : effort ({ s with queue, collectors, retries := s.retries.erase task.file }.report
        task (.collectorUnavailable failure.message)) =
          (queue.toList.map fun other => attemptsLeft s other.file + 2).sum + s.jobs.length +
            (running s).length := by
      rw [← hrest]
      rfl
    rw [hafter]
    omega
  · -- the task goes to the end of the line, with an attempt fewer left
    have hrest := attemptsLeft_rest h hpop
      (t := { s with
        queue := queue.push task
        collectors
        retries := s.retries.insert task.file ((s.retries.get? task.file).getD 0 + 1) })
      fun file hne => by simp [Table.get?_insert, hne]
    have habsent : queue.contains task.file = false :=
      (Table.contains_eq_false_iff _ _).mpr ((hget task.file).trans (if_pos rfl))
    have hafter : effort { s with
        queue := queue.push task
        collectors
        retries := s.retries.insert task.file ((s.retries.get? task.file).getD 0 + 1) } =
          (queue.toList.map fun other => attemptsLeft s other.file + 2).sum +
            (Scheduler.retryLimit + 1 - ((s.retries.get? task.file).getD 0 + 1) + 2) +
              s.jobs.length + (running s).length := by
      simp only [effort, hsound.toList_push habsent, List.map_append, List.sum_append, hrest,
        List.map_cons, List.map_nil, List.sum_singleton]
      rw [attemptsLeft, Table.get?_insert_self, Option.getD_some]
      rfl
    rw [hafter]
    omega

theorem effort_serves (h : Serves fails l m) (hl : l.1.Orderly n) : effort m.1 < effort l.1 := by
  cases h with
  | handed hpop hacquire => exact effort_assign hl hpop _ _
  | refused hpop hacquire => exact effort_refuse hl hpop _ _

theorem effort_served (h : Relation.ReflTransGen (Serves fails) l m) (hl : l.1.Orderly n) :
    effort m.1 ≤ effort l.1 := by
  have hboth : m.1.Orderly n ∧ effort m.1 ≤ effort l.1 := by
    induction h with
    | refl => exact ⟨hl, Nat.le_refl _⟩
    | tail _hbefore hlast ih =>
        exact ⟨hlast.orderly ih.1, Nat.le_trans (Nat.le_of_lt (effort_serves hlast ih.1)) ih.2⟩
  exact hboth.2

theorem effort_launch_le (h : s.Orderly n) (fails : Nat -> Option Failure) (k : Nat) :
    effort (Scheduler.launch fails k s) ≤ effort s :=
  effort_served (launch_serves k h []) h

theorem effort_freeSlots (s : Scheduler) :
    effort s = effort s.freeSlots + (s.jobs.filter Job.isFinished).length := by
  have hlength := length_running_add_finished s
  have hjobs : s.freeSlots.jobs.length = (running s).length := rfl
  have hline : (s.freeSlots.queue.toList.map fun task => attemptsLeft s.freeSlots task.file + 2) =
      s.queue.toList.map fun task => attemptsLeft s task.file + 2 := rfl
  rw [effort, effort, running_freeSlots, hjobs, hline]
  omega

theorem effort_finish (h : s.Ticketed) {job : Job} (hjob : s.job? job.ticket = some job)
    (hruns : job.isFinished = false) (outcome : TaskOutcome) (poisoned : Bool) :
    effort (s.finish job outcome poisoned) < effort s := by
  have hrunning := running_finish h hjob hruns outcome poisoned
  have hjobs : (s.finish job outcome poisoned).jobs.length = s.jobs.length := by
    simp [Scheduler.finish, Scheduler.setStage, Scheduler.report]
  have hline : ((s.finish job outcome poisoned).queue.toList.map fun task =>
        attemptsLeft (s.finish job outcome poisoned) task.file + 2) =
      s.queue.toList.map fun task => attemptsLeft s task.file + 2 := rfl
  rw [effort, effort, hjobs, hline]
  omega

/-!
# Rounds of handing out
-/

/-- There is a job to be swept up, or a task in line and a slot for it. -/
def Ready (s : Scheduler) : Prop :=
  (s.jobs.filter Job.isFinished) ≠ [] ∨ s.queue.toList ≠ [] ∧ s.jobs.length < s.capacity

instance (s : Scheduler) : Decidable (Ready s) :=
  inferInstanceAs (Decidable (_ ≠ [] ∨ s.queue.toList ≠ [] ∧ s.jobs.length < s.capacity))

theorem effort_dispatch_le (h : s.Orderly n) (fails : Nat -> Option Failure) :
    effort (s.dispatch fails) ≤ effort s := by
  rw [effort_freeSlots s]
  exact Nat.le_trans (effort_launch_le h.freeSlots fails _) (Nat.le_add_right _ _)

theorem effort_launch_lt (h : s.Orderly n) (hmay : s.mayDispatch = true)
    (hline : s.queue.toList ≠ []) (hroom : s.jobs.length < s.capacity)
    (fails : Nat -> Option Failure) :
    effort (Scheduler.launch fails (s.capacity - s.jobs.length) s) < effort s := by
  have hfree : s.collectors.pool.free ≠ [] := by
    have hall := h.available_add_pending
    rw [Scheduler.pending, ← h.capacity] at hall
    intro hnil
    rw [Pool.available, hnil, List.length_nil] at hall
    omega
  rcases hpop : s.queue.pop with ⟨_ | task, queue⟩
  · refine absurd ?_ hline
    rw [← h.queue.isEmpty_iff_toList, TaskQueue.isEmpty_iff]
    exact (h.queue.of_pop_none hpop).2
  · rcases exists_serves fails (s.capacity - s.jobs.length - 1) hmay hpop hfree [] with
      ⟨⟨t, log⟩, hserves, k, heq, -⟩
    have hfirst := effort_serves hserves h
    have hrest := effort_launch_le (hserves.orderly h) fails k
    rw [show s.capacity - s.jobs.length - 1 + 1 = s.capacity - s.jobs.length by omega] at heq
    rw [(Prod.mk.inj heq).1]
    exact Nat.lt_of_le_of_lt hrest hfirst

theorem effort_dispatch_lt (h : s.Orderly n) (hready : Ready s) (hsyncing : s.syncing = 0)
    (fails : Nat -> Option Failure) : effort (s.dispatch fails) < effort s := by
  have hswept := effort_freeSlots s
  by_cases hfinished : s.jobs.filter Job.isFinished = []
  · rcases hready with hsome | ⟨hline, hroom⟩
    · exact absurd hfinished hsome
    · have hlength := length_running_add_finished s
      rw [hfinished, List.length_nil] at hlength hswept
      have hjobs : s.freeSlots.jobs.length = s.jobs.length := hlength
      have hmay : s.freeSlots.mayDispatch = true := by
        rw [Scheduler.mayDispatch, h.freeSlots.enabled]
        simpa [Scheduler.freeSlots] using hsyncing
      have hroom' : s.freeSlots.jobs.length < s.freeSlots.capacity := by
        rw [hjobs, (Scheduler.placed_freeSlots s).2]
        exact hroom
      rw [hswept]
      exact effort_launch_lt h.freeSlots hmay hline hroom' fails
  · have hsome := List.length_pos_iff.mpr hfinished
    have hlaunch := effort_launch_le h.freeSlots fails
      (s.freeSlots.capacity - s.freeSlots.jobs.length)
    exact Nat.lt_of_le_of_lt hlaunch (by omega)

end Drain
end SymbolIndex
