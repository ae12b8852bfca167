import SymbolIndex.Proofs.Scheduler.Jobs
import SymbolIndex.Proofs.Task.Queue

/-!
# What a round of handing out does to tasks

A task that was queued stays queued, or it becomes one new job, or it is given up, which
is reported as a failure.
-/

namespace SymbolIndex
namespace Scheduler

/-- What became of the task of a file in a round that handed out some jobs. -/
inductive Fate (s t : Scheduler) (handed : List Job) (file : FileId) : Prop where
  | stays (hsame : t.queue.get? file = s.queue.get? file)
      (hnone : forall job, job ∈ handed -> job.task.file ≠ file)
  | runs (job : Job) (hjob : job ∈ handed) (hfile : job.task.file = file)
      (hqueued : s.queue.get? file = some job.task) (htaken : t.queue.get? file = none)
      (honly : forall other, other ∈ handed -> other.task.file = file -> other = job)
  | givenUp (task : Task) (hqueued : s.queue.get? file = some task)
      (htaken : t.queue.get? file = none)
      (hnone : forall job, job ∈ handed -> job.task.file ≠ file)
      (hreport : exists report, report ∈ t.reports.drop s.reports.length ∧
        report.outcome.isFailure = true)

/-- What a round did that handed out some jobs. -/
structure Launched (s t : Scheduler) (handed : List Job) : Prop where
  queue : t.queue.Sound
  jobs : t.jobs = s.jobs ++ handed
  assigned : forall job, job ∈ handed -> job.stage = .assigned
  tickets : forall job, job ∈ handed -> s.nextTicket ≤ job.ticket
  next : s.nextTicket ≤ t.nextTicket
  reports : s.reports <+: t.reports
  fates : forall file, Fate s t handed file

theorem launched_refl {s : Scheduler} (h : s.queue.Sound) : Launched s s [] where
  queue := h
  jobs := by simp
  assigned := by simp
  tickets := by simp
  next := Nat.le_refl _
  reports := List.prefix_refl _
  fates := fun _ => .stays rfl (by simp)

variable {s t : Scheduler} {handed : List Job} {task : Task} {queue : TaskQueue}

theorem Launched.queued_of_pop (h : Launched s t handed)
    (hpop : t.queue.pop = (some task, queue)) :
    s.queue.get? task.file = some task ∧
      forall job, job ∈ handed -> job.task.file ≠ task.file := by
  have hfront := (h.queue.get?_of_pop hpop).1
  cases h.fates task.file with
  | stays hsame hnone => exact ⟨hsame.symm.trans hfront, hnone⟩
  | runs job hjob hfile hqueued htaken honly =>
      rw [htaken] at hfront
      cases hfront
  | givenUp other hqueued htaken hnone hreport =>
      rw [htaken] at hfront
      cases hfront

theorem Launched.assign (h : Launched s t handed) (hpop : t.queue.pop = (some task, queue))
    (collector : Borrowed Nat) (collectors : CollectorPool) :
    Launched s ({ t with queue, collectors }.assign task collector)
      (handed ++ [⟨t.nextTicket, task, collector, .assigned⟩]) := by
  rcases h.queue.get?_of_pop hpop with ⟨-, hsound, hget⟩
  rcases h.queued_of_pop hpop with ⟨hqueued, hnew⟩
  refine
    { queue := hsound
      jobs := ?_
      assigned := ?_
      tickets := ?_
      next := Nat.le_succ_of_le h.next
      reports := h.reports
      fates := ?_ }
  · simp [Scheduler.assign, h.jobs]
  · intro job hjob
    rcases List.mem_append.mp hjob with hold | hlast
    · exact h.assigned job hold
    · rw [List.mem_singleton.mp hlast]
  · intro job hjob
    rcases List.mem_append.mp hjob with hold | hlast
    · exact h.tickets job hold
    · rw [List.mem_singleton.mp hlast]
      exact h.next
  · intro file
    by_cases hfile : task.file = file
    · subst hfile
      refine .runs ⟨t.nextTicket, task, collector, .assigned⟩ (by simp) rfl hqueued
        (by simp [Scheduler.assign, hget]) ?_
      intro other hother hsame
      rcases List.mem_append.mp hother with hold | hlast
      · exact absurd hsame (hnew other hold)
      · exact List.mem_singleton.mp hlast
    · have hsame : queue.get? file = t.queue.get? file := by rw [hget, if_neg hfile]
      -- the new job is of another file
      have hnone : (forall job, job ∈ handed -> job.task.file ≠ file) ->
          forall job, job ∈ handed ++ [⟨t.nextTicket, task, collector, .assigned⟩] ->
            job.task.file ≠ file := by
        intro hold job hjob
        rcases List.mem_append.mp hjob with hmem | hlast
        · exact hold job hmem
        · rw [List.mem_singleton.mp hlast]
          exact hfile
      cases h.fates file with
      | stays hstays hold => exact .stays (hsame.trans hstays) (hnone hold)
      | runs job hjob hjobFile hqueued' htaken honly =>
          refine .runs job (List.mem_append_left _ hjob) hjobFile hqueued'
            (hsame.trans htaken) ?_
          intro other hother hotherFile
          rcases List.mem_append.mp hother with hold | hlast
          · exact honly other hold hotherFile
          · rw [List.mem_singleton.mp hlast] at hotherFile
            exact absurd hotherFile hfile
      | givenUp other hqueued' htaken hold hreport =>
          exact .givenUp other hqueued' (hsame.trans htaken) (hnone hold) hreport

theorem Launched.refuse (h : Launched s t handed) (hpop : t.queue.pop = (some task, queue))
    (failure : Failure) (collectors : CollectorPool) :
    Launched s ({ t with queue, collectors }.refuse task failure) handed := by
  rcases h.queue.get?_of_pop hpop with ⟨hfront, hsound, hget⟩
  rcases h.queued_of_pop hpop with ⟨hqueued, hnew⟩
  unfold Scheduler.refuse
  dsimp only
  split
  · -- the task is given up
    refine
      { queue := hsound
        jobs := h.jobs
        assigned := h.assigned
        tickets := h.tickets
        next := h.next
        reports := h.reports.trans (List.prefix_append _ _)
        fates := ?_ }
    intro file
    by_cases hfile : task.file = file
    · subst hfile
      refine .givenUp task hqueued (by simp [Scheduler.report, hget]) hnew ?_
      refine ⟨⟨task.file, task.part, .collectorUnavailable failure.message⟩, ?_, rfl⟩
      rw [Scheduler.report, List.drop_append_of_le_length h.reports.length_le]
      exact List.mem_append_right _ List.mem_cons_self
    · have hsame : queue.get? file = t.queue.get? file := by rw [hget, if_neg hfile]
      cases h.fates file with
      | stays hstays hold => exact .stays (hsame.trans hstays) hold
      | runs job hjob hjobFile hqueued' htaken honly =>
          exact .runs job hjob hjobFile hqueued' (hsame.trans htaken) honly
      | givenUp other hqueued' htaken hold hreport =>
          rcases hreport with ⟨report, hmem, hfails⟩
          refine .givenUp other hqueued' (hsame.trans htaken) hold ⟨report, ?_, hfails⟩
          rw [Scheduler.report, List.drop_append_of_le_length h.reports.length_le]
          exact List.mem_append_left _ hmem
  · -- the task goes back into the queue
    have habsent : queue.contains task.file = false := by
      have hnone : queue.get? task.file = none := by rw [hget, if_pos rfl]
      exact (Table.contains_eq_false_iff _ _).mpr hnone
    rw [habsent, if_neg Bool.false_ne_true]
    have hback : forall file, (queue.push task).get? file = t.queue.get? file := by
      intro file
      rw [TaskQueue.get?_push]
      by_cases hfile : task.file = file
      · rw [if_pos hfile, ← hfile, hfront]
      · rw [if_neg hfile, hget, if_neg hfile]
    refine
      { queue := hsound.push task
        jobs := h.jobs
        assigned := h.assigned
        tickets := h.tickets
        next := h.next
        reports := h.reports
        fates := ?_ }
    intro file
    cases h.fates file with
    | stays hstays hold => exact .stays ((hback file).trans hstays) hold
    | runs job hjob hjobFile hqueued' htaken honly =>
        exact .runs job hjob hjobFile hqueued' ((hback file).trans htaken) honly
    | givenUp other hqueued' htaken hold hreport =>
        exact .givenUp other hqueued' ((hback file).trans htaken) hold hreport

theorem exists_launched {s : Scheduler} (h : s.queue.Sound) (fails : Nat -> Option Failure)
    (n : Nat) : exists handed, Launched s (launch fails n s) handed := by
  refine launch_induction (P := fun t => exists handed, Launched s t handed) ?_ ?_ ?_ n s
    ⟨[], launched_refl h⟩
  · rintro t queue ⟨handed, ht⟩ hpop
    rw [(ht.queue.of_pop_none hpop).1]
    exact ⟨handed, ht⟩
  · rintro t task queue collector collectors ⟨handed, ht⟩ _hmay hpop _hacquire
    exact ⟨_, ht.assign hpop collector collectors⟩
  · rintro t task queue failure collectors ⟨handed, ht⟩ _hmay hpop _hacquire
    exact ⟨handed, ht.refuse hpop failure collectors⟩

theorem exists_dispatched {s : Scheduler} (h : s.queue.Sound) (fails : Nat -> Option Failure) :
    exists handed, Launched s.freeSlots (s.dispatch fails) handed :=
  exists_launched (s := s.freeSlots) h fails _

theorem Launched.queued (h : Launched s t handed) {file : FileId}
    (hget : t.queue.get? file = some task) : s.queue.get? file = some task := by
  cases h.fates file with
  | stays hsame hnone => exact hsame.symm.trans hget
  | runs job hjob hfile hqueued htaken honly =>
      rw [htaken] at hget
      cases hget
  | givenUp other hqueued htaken hnone hreport =>
      rw [htaken] at hget
      cases hget

theorem Launched.runs (h : Launched s t handed) (ticket : Nat) (task : Task) :
    t.Runs ticket task ↔
      s.Runs ticket task ∨ exists job, job ∈ handed ∧ job.ticket = ticket ∧ job.task = task := by
  unfold Runs
  rw [h.jobs]
  constructor
  · rintro ⟨job, hjob, hticket, htask, hfinished⟩
    rcases List.mem_append.mp hjob with hold | hnew
    · exact Or.inl ⟨job, hold, hticket, htask, hfinished⟩
    · exact Or.inr ⟨job, hnew, hticket, htask⟩
  · rintro (⟨job, hold, hrest⟩ | ⟨job, hnew, hticket, htask⟩)
    · exact ⟨job, List.mem_append_left _ hold, hrest⟩
    · refine ⟨job, List.mem_append_right _ hnew, hticket, htask, ?_⟩
      rw [Job.isFinished, h.assigned job hnew]

/-!
# Rounds without failures
-/

/-- No task has failed so far. -/
def Untroubled (s : Scheduler) : Prop :=
  forall report, report ∈ s.reports -> report.outcome.isFailure = false

instance (s : Scheduler) : Decidable s.Untroubled :=
  inferInstanceAs (Decidable (forall report, report ∈ s.reports -> report.outcome.isFailure = false))

theorem Untroubled.of_prefix {s t : Scheduler} (h : t.Untroubled)
    (hreports : s.reports <+: t.reports) : s.Untroubled := by
  intro report hreport
  exact h report (hreports.subset hreport)

/-- No task has failed since there were so many reports. -/
def UntroubledSince (s : Scheduler) (count : Nat) : Prop :=
  forall report, report ∈ s.reports.drop count -> report.outcome.isFailure = false

instance (s : Scheduler) (count : Nat) : Decidable (s.UntroubledSince count) :=
  inferInstanceAs (Decidable (forall report, report ∈ s.reports.drop count ->
    report.outcome.isFailure = false))

theorem Untroubled.since {s : Scheduler} (h : s.Untroubled) (count : Nat) :
    s.UntroubledSince count :=
  fun report hreport => h report (List.mem_of_mem_drop hreport)

theorem UntroubledSince.of_prefix {s t : Scheduler} {count later : Nat}
    (h : t.UntroubledSince count) (hreports : s.reports <+: t.reports) (hle : count ≤ later) :
    s.UntroubledSince later := by
  intro report hreport
  apply h report
  rcases hreports with ⟨rest, hrest⟩
  rw [← hrest, List.drop_append]
  exact List.mem_append_left _ ((List.drop_subset_drop_left s.reports hle) hreport)

theorem Launched.fate (h : Launched s t handed) (huntroubled : t.UntroubledSince s.reports.length)
    (file : FileId) :
    (t.queue.get? file = s.queue.get? file ∧
        forall job, job ∈ handed -> job.task.file ≠ file) ∨
      exists job, job ∈ handed ∧ job.task.file = file ∧
        s.queue.get? file = some job.task ∧ t.queue.get? file = none ∧
        forall other, other ∈ handed -> other.task.file = file -> other = job := by
  cases h.fates file with
  | stays hsame hnone => exact Or.inl ⟨hsame, hnone⟩
  | runs job hjob hfile hqueued htaken honly =>
      exact Or.inr ⟨job, hjob, hfile, hqueued, htaken, honly⟩
  | givenUp task hqueued htaken hnone hreport =>
      rcases hreport with ⟨report, hmem, hfails⟩
      rw [huntroubled report hmem] at hfails
      cases hfails

end Scheduler
end SymbolIndex
