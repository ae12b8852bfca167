import SymbolIndex.FileStatus
import SymbolIndex.Pool
import SymbolIndex.Symbol
import SymbolIndex.Task.Queue

/-!
# The scheduler

Queued tasks are handed to workers, each with a collector from the pool, and never to
more at once than the pool has slots. A worker reads its file, collects it, stores the
results and marks its job finished; finished jobs are swept up and their collectors go
back to the pool, unless they broke down. A task for which no collector can be made is
put back a few times before it is given up.
-/

namespace SymbolIndex

inductive TaskOutcome where
  | indexed (symbols locations : Nat)
  | unchanged
  | stale
  | parseFailed (message : String)
  | storageFailed (message : String)
  | collectorUnavailable (message : String)
deriving DecidableEq, Repr

namespace TaskOutcome

/-- Why a task failed, if it did. -/
def message? : TaskOutcome -> Option String
  | parseFailed message => some message
  | storageFailed message => some message
  | collectorUnavailable message => some message
  | _ => none

def isFailure (outcome : TaskOutcome) : Bool := outcome.message?.isSome

end TaskOutcome

structure TaskReport where
  file : FileId
  part : PartId
  outcome : TaskOutcome
deriving DecidableEq, Repr

structure SchedulerCounters where
  dispatched : Nat
  indexed : Nat
  unchanged : Nat
  stale : Nat
  failed : Nat
deriving DecidableEq, Repr

namespace SchedulerCounters

def zero : SchedulerCounters := ⟨0, 0, 0, 0, 0⟩

def record (c : SchedulerCounters) : TaskOutcome -> SchedulerCounters
  | .indexed .. => { c with indexed := c.indexed + 1 }
  | .unchanged => { c with unchanged := c.unchanged + 1 }
  | .stale => { c with stale := c.stale + 1 }
  | _ => { c with failed := c.failed + 1 }

end SchedulerCounters

/-- How far a worker has come with a job. -/
inductive Stage where
  | assigned
  | reading (path : Path) (status : FileStatus)
  | collected (status : FileStatus) (results : Results)
  | finished (poisoned : Bool)
deriving DecidableEq

/-- A task in the hands of a worker. -/
structure Job where
  ticket : Nat
  task : Task
  collector : Borrowed Nat
  stage : Stage
deriving DecidableEq

namespace Job

def isFinished (job : Job) : Bool :=
  match job.stage with
  | .finished _ => true
  | _ => false

end Job

structure Scheduler where
  enabled : Bool
  syncing : Nat
  jobs : List Job
  collectors : CollectorPool
  queue : TaskQueue
  retries : Table FileId Nat
  counters : SchedulerCounters
  reports : List TaskReport
  nextTicket : Nat

namespace Scheduler

def ofCapacity (n : Nat) : Scheduler :=
  { enabled := true
    syncing := 0
    jobs := []
    collectors := .ofCapacity n
    queue := .empty
    retries := ∅
    counters := .zero
    reports := []
    nextTicket := 0 }

def capacity (s : Scheduler) : Nat := s.collectors.pool.capacity

/-- The jobs that were not swept up yet. -/
def pending (s : Scheduler) : Nat := s.jobs.length

/-- How often a task is put back when no collector can be made for it. -/
def retryLimit : Nat := 3

def report (s : Scheduler) (task : Task) (outcome : TaskOutcome) : Scheduler :=
  { s with
    counters := s.counters.record outcome
    reports := s.reports ++ [⟨task.file, task.part, outcome⟩] }

/-- Nothing is running, and nothing could be. -/
def isIdle (s : Scheduler) : Bool := s.jobs.isEmpty && (!s.enabled || s.queue.isEmpty)

def enqueue (s : Scheduler) (tasks : List Task) : Scheduler :=
  { s with queue := s.queue.addOrUpdate tasks }

def dropTasks (s : Scheduler) (files : List FileId) : Scheduler :=
  { s with queue := s.queue.remove files }

def disable (s : Scheduler) : Scheduler := { s with enabled := false }

/-!
# Sweeping up
-/

/-- Give back the collector of a finished job; one that broke down is thrown away. -/
def giveBack (c : CollectorPool) (job : Job) : CollectorPool :=
  match job.stage with
  | .finished true => c.discard job.collector
  | .finished false => c.release job.collector
  | _ => c

/-- Sweep up the finished jobs. -/
def freeSlots (s : Scheduler) : Scheduler :=
  { s with
    jobs := s.jobs.filter fun job => !job.isFinished
    collectors := s.jobs.foldl giveBack s.collectors }

/-!
# Handing out
-/

def mayDispatch (s : Scheduler) : Bool := s.enabled && s.syncing == 0

def assign (s : Scheduler) (task : Task) (collector : Borrowed Nat) : Scheduler :=
  { s with
    jobs := s.jobs ++ [⟨s.nextTicket, task, collector, .assigned⟩]
    nextTicket := s.nextTicket + 1
    retries := s.retries.erase task.file
    counters := { s.counters with dispatched := s.counters.dispatched + 1 } }

/--
Put a task back for which no collector could be made, unless a newer task for its file
is queued. After too many attempts the task is given up.
-/
def refuse (s : Scheduler) (task : Task) (failure : Failure) : Scheduler :=
  let attempts := (s.retries.get? task.file).getD 0 + 1
  if retryLimit < attempts then
    { s with retries := s.retries.erase task.file }.report task
      (.collectorUnavailable failure.message)
  else
    { s with
      retries := s.retries.insert task.file attempts
      queue := if s.queue.contains task.file then s.queue else s.queue.push task }

/--
Hand out up to `n` tasks; `fails` says which constructions of collectors fail. The first
task for which no collector can be made ends the round.
-/
def launch (fails : Nat -> Option Failure) : Nat -> Scheduler -> Scheduler
  | 0, s => s
  | n + 1, s =>
      if !s.mayDispatch then s
      else match s.queue.pop with
        | (none, queue) => { s with queue }
        | (some task, queue) =>
            match s.collectors.acquire fails with
            | none => s
            | some (.ok collector, collectors) =>
                launch fails n ({ s with queue, collectors }.assign task collector)
            | some (.error failure, collectors) => { s with queue, collectors }.refuse task failure

/-- Sweep up, then hand out as many tasks as there are free slots. -/
def dispatch (s : Scheduler) (fails : Nat -> Option Failure) : Scheduler :=
  let s := s.freeSlots
  launch fails (s.capacity - s.jobs.length) s

/-!
# Progress of jobs
-/

/-- The job of a ticket as it is now. -/
def job? (s : Scheduler) (ticket : Nat) : Option Job :=
  s.jobs.find? fun job => decide (job.ticket = ticket)

def setStage (s : Scheduler) (ticket : Nat) (stage : Stage) : Scheduler :=
  { s with jobs := s.jobs.map fun job => if job.ticket = ticket then { job with stage } else job }

/-- The end of a job: its outcome is counted and reported, then it may be swept up. -/
def finish (s : Scheduler) (job : Job) (outcome : TaskOutcome) (poisoned : Bool) : Scheduler :=
  (s.report job.task outcome).setStage job.ticket (.finished poisoned)

/-- The first job that is not finished. -/
def unfinished? (s : Scheduler) : Option Job := s.jobs.find? fun job => !job.isFinished

/-- The first job whose worker has not begun. -/
def assigned? (s : Scheduler) : Option Job := s.jobs.find? fun job => decide (job.stage = .assigned)

end Scheduler
end SymbolIndex
