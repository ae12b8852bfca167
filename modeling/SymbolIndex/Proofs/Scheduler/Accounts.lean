import SymbolIndex.Proofs.Scheduler.Intact

/-!
# What becomes of each task in a drain

A task that was queued for a file is still in line, or a worker has it, or it came to
its one end: a worker ended it, or it was given up after four attempts to make a
collector for it.
-/

namespace SymbolIndex
namespace Drain

/-!
# What the log tells of a file
-/

theorem constructionsFor_append (log more : List Entry) (file : FileId) :
    constructionsFor (log ++ more) file = constructionsFor log file ++ constructionsFor more file :=
  List.filterMap_append

theorem constructionsFor_self (file : FileId) (collector : Option Nat) :
    constructionsFor [.construction file collector] file = [collector] := by
  simp [constructionsFor]

theorem constructionsFor_of_ne {file file' : FileId} (h : file' ≠ file) (collector : Option Nat) :
    constructionsFor [.construction file' collector] file = [] := by
  simp [constructionsFor, h]

@[simp] theorem constructionsFor_ended (job : Job) (ending : Ending) (file : FileId) :
    constructionsFor [.ended job ending] file = [] := rfl

theorem endsOf_append_ended (log : List Entry) (job : Job) (ending : Ending) (file : FileId) :
    endsOf (log ++ [.ended job ending]) file =
      endsOf log file ++ if job.task.file = file then [(job, ending)] else [] := by
  rw [endsOf, ends_append, List.filter_append, ends_ended, endsOf]
  split <;> simp_all

theorem reportsOn_report (s : Scheduler) (task : Task) (outcome : TaskOutcome) (file : FileId) :
    reportsOn (s.report task outcome) file =
      reportsOn s file ++ if task.file = file then [⟨task.file, task.part, outcome⟩] else [] := by
  rw [reportsOn, Scheduler.report, List.filter_append, reportsOn]
  split <;> simp_all

/-!
# Accounts
-/

/-- Where the task stands that was queued for a file at first, if there was one. -/
inductive Account (queued : Option Task) (file : FileId) (s : Scheduler) (log : List Entry) :
    Prop where
  | none (hqueued : queued = .none) (htaken : s.queue.get? file = .none)
      (hjobs : forall job, job ∈ s.jobs -> job.task.file ≠ file)
      (hreports : reportsOn s file = [])
  | inLine (task : Task) (hqueued : queued = some task) (hinLine : s.queue.get? file = some task)
      (hjobs : forall job, job ∈ s.jobs -> job.task.file ≠ file)
      (hreports : reportsOn s file = []) (hends : endsOf log file = [])
      (hfailed : constructionsFor log file =
        List.replicate ((s.retries.get? file).getD 0) .none)
  | runs (job : Job) (hqueued : queued = some job.task) (htaken : s.queue.get? file = .none)
      (hfile : job.task.file = file) (hjob : job ∈ s.jobs) (hruns : job.isFinished = false)
      (honly : forall other, other ∈ s.jobs -> other.task.file = file -> other = job)
      (hreports : reportsOn s file = []) (hends : endsOf log file = [])
  | ended (job : Job) (ending : Ending) (hqueued : queued = some job.task)
      (htaken : s.queue.get? file = .none)
      (hjobs : forall other, other ∈ s.jobs -> other.task.file = file -> other.isFinished = true)
      (hreports : reportsOn s file = [⟨file, job.task.part, ending.outcome⟩])
      (hends : endsOf log file = [(job, ending)])
  | givenUp (task : Task) (message : String) (hqueued : queued = some task)
      (htaken : s.queue.get? file = .none)
      (hjobs : forall job, job ∈ s.jobs -> job.task.file ≠ file)
      (hreports : reportsOn s file = [⟨file, task.part, .collectorUnavailable message⟩])
      (hends : endsOf log file = [])
      (hfailed : constructionsFor log file = List.replicate (Scheduler.retryLimit + 1) .none)

variable {queued : Option Task} {file : FileId} {s t : Scheduler} {log log' : List Entry}

theorem Account.frame (h : Account queued file s log)
    (hqueue : t.queue.get? file = s.queue.get? file)
    (hjobs : forall job, job.task.file = file -> (job ∈ t.jobs ↔ job ∈ s.jobs))
    (hretries : t.retries.get? file = s.retries.get? file)
    (hreports : reportsOn t file = reportsOn s file) (hends : endsOf log' file = endsOf log file)
    (hmade : constructionsFor log' file = constructionsFor log file) :
    Account queued file t log' := by
  have hnone : (forall job, job ∈ s.jobs -> job.task.file ≠ file) ->
      forall job, job ∈ t.jobs -> job.task.file ≠ file :=
    fun hold job hjob hfile => hold job ((hjobs job hfile).mp hjob) hfile
  cases h with
  | none hqueued htaken hold hreported =>
      exact .none hqueued (hqueue.trans htaken) (hnone hold) (hreports.trans hreported)
  | inLine task hqueued hinLine hold hreported hended hfailed =>
      exact .inLine task hqueued (hqueue.trans hinLine) (hnone hold) (hreports.trans hreported)
        (hends.trans hended) (by rw [hmade, hretries, hfailed])
  | runs job hqueued htaken hfile hjob hruns honly hreported hended =>
      exact .runs job hqueued (hqueue.trans htaken) hfile ((hjobs job hfile).mpr hjob) hruns
        (fun other hother hsame => honly other ((hjobs other hsame).mp hother) hsame)
        (hreports.trans hreported) (hends.trans hended)
  | ended job ending hqueued htaken hold hreported hended =>
      exact .ended job ending hqueued (hqueue.trans htaken)
        (fun other hother hfile => hold other ((hjobs other hfile).mp hother) hfile)
        (hreports.trans hreported) (hends.trans hended)
  | givenUp task message hqueued htaken hold hreported hended hfailed =>
      exact .givenUp task message hqueued (hqueue.trans htaken) (hnone hold)
        (hreports.trans hreported) (hends.trans hended) (hmade.trans hfailed)

theorem Account.of_inLine (h : Account queued file s log) {task : Task}
    (hinLine : s.queue.get? file = some task) :
    queued = some task ∧ (forall job, job ∈ s.jobs -> job.task.file ≠ file) ∧
      reportsOn s file = [] ∧ endsOf log file = [] ∧
      constructionsFor log file = List.replicate ((s.retries.get? file).getD 0) .none := by
  cases h with
  | inLine task' hqueued hinLine' hjobs hreports hends hfailed =>
      rw [hinLine'] at hinLine
      cases hinLine
      exact ⟨hqueued, hjobs, hreports, hends, hfailed⟩
  | none hqueued htaken =>
      rw [htaken] at hinLine
      cases hinLine
  | runs job hqueued htaken =>
      rw [htaken] at hinLine
      cases hinLine
  | ended job ending hqueued htaken =>
      rw [htaken] at hinLine
      cases hinLine
  | givenUp task' message hqueued htaken =>
      rw [htaken] at hinLine
      cases hinLine

theorem Account.of_runs (h : Account queued file s log) {job : Job} (hjob : job ∈ s.jobs)
    (hfile : job.task.file = file) (hruns : job.isFinished = false) :
    queued = some job.task ∧ s.queue.get? file = .none ∧
      (forall other, other ∈ s.jobs -> other.task.file = file -> other = job) ∧
      reportsOn s file = [] ∧ endsOf log file = [] := by
  cases h with
  | runs job' hqueued htaken hfile' hjob' hruns' honly hreports hends =>
      cases honly job hjob hfile
      exact ⟨hqueued, htaken, honly, hreports, hends⟩
  | none hqueued htaken hjobs => exact absurd hfile (hjobs job hjob)
  | inLine task hqueued hinLine hjobs => exact absurd hfile (hjobs job hjob)
  | ended other ending hqueued htaken hjobs =>
      rw [hjobs job hjob hfile] at hruns
      cases hruns
  | givenUp task message hqueued htaken hjobs => exact absurd hfile (hjobs job hjob)

variable {fails : Nat -> Option Failure} {n : Nat}

theorem Account.handed (h : Account queued file s log) (hs : s.Orderly n) {task : Task}
    {queue : TaskQueue} (hpop : s.queue.pop = (some task, queue)) (collector : Borrowed Nat)
    (collectors : CollectorPool) (made : Bool) :
    Account queued file ({ s with queue, collectors }.assign task collector)
      (log ++ if made then [.construction task.file (some collector.thing)] else []) := by
  rcases hs.queue.get?_of_pop hpop with ⟨hfront, -, hget⟩
  have hends : endsOf (log ++ if made then
      [.construction task.file (some collector.thing)] else []) file = endsOf log file := by
    cases made <;> simp [endsOf, ends_append]
  by_cases hfile : task.file = file
  · subst hfile
    rcases h.of_inLine hfront with ⟨hqueued, hjobs, hreports, hended, -⟩
    refine .runs ⟨s.nextTicket, task, collector, .assigned⟩ hqueued ?_ rfl (by simp [Scheduler.assign])
      rfl ?_ hreports (hends.trans hended)
    · simp [Scheduler.assign, hget]
    · intro other hother hsame
      simp only [Scheduler.assign, List.mem_append, List.mem_singleton] at hother
      exact hother.resolve_left fun hold => hjobs other hold hsame
  · refine h.frame ?_ ?_ ?_ rfl hends ?_
    · simp [Scheduler.assign, hget, hfile]
    · intro job hjob
      simp only [Scheduler.assign, List.mem_append, List.mem_singleton]
      refine or_iff_left ?_
      rintro rfl
      exact hfile hjob
    · simp [Scheduler.assign, Table.get?_erase, hfile]
    · cases made with
      | true => simp [constructionsFor_append, constructionsFor_of_ne hfile]
      | false => simp

theorem Account.refused (h : Account queued file s log) (hs : s.Orderly n) {task : Task}
    {queue : TaskQueue} (hpop : s.queue.pop = (some task, queue)) (collectors : CollectorPool)
    (failure : Failure) :
    Account queued file ({ s with queue, collectors }.refuse task failure)
      (log ++ [.construction task.file .none]) := by
  rcases hs.queue.get?_of_pop hpop with ⟨hfront, -, hget⟩
  have hends : endsOf (log ++ [.construction task.file .none]) file = endsOf log file := by
    simp [endsOf, ends_append]
  rw [hs.refuse_eq hpop]
  by_cases hfile : task.file = file
  · subst hfile
    rcases h.of_inLine hfront with ⟨hqueued, hjobs, hreports, hended, hfailed⟩
    have hmade : constructionsFor (log ++ [.construction task.file .none]) task.file =
        List.replicate ((s.retries.get? task.file).getD 0 + 1) .none := by
      rw [constructionsFor_append, hfailed, constructionsFor_self, List.replicate_succ']
    split
    · rename_i hmany
      have hlast := Nat.le_antisymm (hs.retries task.file) hmany
      refine .givenUp task failure.message hqueued ?_ hjobs ?_ (hends.trans hended) ?_
      · simp [Scheduler.report, hget]
      · rw [reportsOn_report, if_pos rfl]
        exact congrArg (· ++ _) hreports
      · rw [hmade, hlast]
    · refine .inLine task hqueued ?_ hjobs hreports (hends.trans hended) ?_
      · simp [TaskQueue.get?_push]
      · rw [hmade]
        simp
  · have hmade : constructionsFor (log ++ [.construction task.file .none]) file =
        constructionsFor log file := by
      simp [constructionsFor_append, constructionsFor_of_ne hfile]
    split
    · refine h.frame ?_ (fun job _ => Iff.rfl) ?_ ?_ hends hmade
      · simp [Scheduler.report, hget, hfile]
      · simp [Scheduler.report, Table.get?_erase, hfile]
      · rw [reportsOn_report, if_neg hfile, List.append_nil]
        rfl
    · refine h.frame ?_ (fun job _ => Iff.rfl) ?_ rfl hends hmade
      · simp [TaskQueue.get?_push, hget, hfile]
      · simp [Table.get?_insert, hfile]

theorem Account.swept (h : Account queued file s log) : Account queued file s.freeSlots log := by
  have hfewer : forall job, job ∈ s.freeSlots.jobs -> job ∈ s.jobs :=
    fun job hjob => List.mem_of_mem_filter hjob
  cases h with
  | none hqueued htaken hjobs hreports =>
      exact .none hqueued htaken (fun job hjob => hjobs job (hfewer job hjob)) hreports
  | inLine task hqueued hinLine hjobs hreports hends hfailed =>
      exact .inLine task hqueued hinLine (fun job hjob => hjobs job (hfewer job hjob)) hreports
        hends hfailed
  | runs job hqueued htaken hfile hjob hruns honly hreports hends =>
      refine .runs job hqueued htaken hfile (List.mem_filter.mpr ⟨hjob, by simp [hruns]⟩) hruns
        (fun other hother => honly other (hfewer other hother)) hreports hends
  | ended job ending hqueued htaken hjobs hreports hends =>
      exact .ended job ending hqueued htaken (fun job hjob => hjobs job (hfewer job hjob)) hreports
        hends
  | givenUp task message hqueued htaken hjobs hreports hends hfailed =>
      exact .givenUp task message hqueued htaken (fun job hjob => hjobs job (hfewer job hjob))
        hreports hends hfailed

theorem Account.finished (h : Account queued file s log) (hs : s.Orderly n) {job : Job}
    (hjob : s.job? job.ticket = some job) (hruns : job.isFinished = false) (ending : Ending) :
    Account queued file (s.finish job ending.outcome ending.poisons)
      (log ++ [.ended job ending]) := by
  have hmem := (Scheduler.mem_of_job? hjob).1
  have hreports : reportsOn (s.finish job ending.outcome ending.poisons) file =
      reportsOn s file ++
        if job.task.file = file then [⟨job.task.file, job.task.part, ending.outcome⟩] else [] :=
    reportsOn_report s job.task ending.outcome file
  have hends := endsOf_append_ended log job ending file
  by_cases hfile : job.task.file = file
  · subst hfile
    rcases h.of_runs hmem rfl hruns with ⟨hqueued, htaken, honly, hnone, hnoEnds⟩
    rw [hnone, if_pos rfl] at hreports
    rw [hnoEnds, if_pos rfl] at hends
    refine .ended job ending hqueued htaken ?_ hreports hends
    intro found hfound hsame
    rcases (Scheduler.mem_jobs_setStage _ _ _ _).mp hfound with ⟨old, hold, hset⟩
    split at hset
    · rw [← hset]
      rfl
    · rename_i hother
      rw [← hset] at hsame
      rw [honly old hold hsame] at hother
      exact absurd rfl hother
  · rw [if_neg hfile, List.append_nil] at hreports hends
    refine h.frame rfl ?_ rfl hreports hends (by simp [constructionsFor_append])
    intro other hother
    rw [Scheduler.finish, Scheduler.mem_jobs_setStage]
    constructor
    · rintro ⟨old, hold, hset⟩
      split at hset
      · rename_i hsame
        rw [hs.ticketed.eq_of_ticket_eq hold hmem hsame] at hset
        rw [← hset] at hother
        exact absurd hother hfile
      · rw [← hset]
        exact hold
    · intro hold
      refine ⟨other, hold, if_neg ?_⟩
      intro hsame
      rw [hs.ticketed.eq_of_ticket_eq hold hmem hsame] at hother
      exact hfile hother

theorem Account.step {l m : Ledger} (h : Account queued file l.1 l.2) (hl : l.1.Orderly n)
    (hstep : Step fails l m) : Account queued file m.1 m.2 := by
  cases hstep with
  | served hserves =>
      cases hserves with
      | handed hpop hacquire => exact h.handed hl hpop _ _ _
      | refused hpop hacquire => exact h.refused hl hpop _ _
  | swept s log => exact h.swept
  | synced s log syncing => exact h.frame rfl (fun job _ => Iff.rfl) rfl rfl rfl rfl
  | ended ending hjob hruns => exact h.finished hl hjob hruns ending

end Drain
end SymbolIndex
