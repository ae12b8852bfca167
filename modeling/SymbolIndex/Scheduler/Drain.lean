import SymbolIndex.Scheduler.Crew
import SymbolIndex.Store.Mutation

/-!
# Drains

Somebody waits until a scheduler is idle while its workers go on. The waiter goes round
and round: it holds handing out up until the jobs of the moment have ended, sweeps up,
hands out twice and looks whether anything is left. A worker that ends its job hands out
as well, some time later. Handing out, sweeping up and the end of a job are one step
each, other than in a crew. A drain keeps a log of the collectors that were made and of
the jobs that ended.
-/

namespace SymbolIndex

/-- How a worker can end its job. -/
inductive Ending where
  | failed (message : String)
  | panicked (message : String)
  | stored (outcome : ApplyOutcome)
  | unstored (message : String)
deriving DecidableEq, Repr

namespace Ending

def outcome : Ending -> TaskOutcome
  | failed message => .parseFailed message
  | panicked message => .parseFailed message
  | stored (.applied symbols locations) => .indexed symbols locations
  | stored .unchanged => .unchanged
  | stored .stale => .stale
  | unstored message => .storageFailed message

/-- Whether the collector cannot be used again. -/
def poisons : Ending -> Bool
  | panicked _ => true
  | _ => false

end Ending

/--
Something that happened in a drain: a collector was made for the task of a file, or
could not be made, or a job ended.
-/
inductive Entry where
  | construction (file : FileId) (collector : Option Nat)
  | ended (job : Job) (ending : Ending)
deriving DecidableEq

namespace Scheduler

/-- The constructions in a round of handing out up to `n` tasks. -/
def launchLog (fails : Nat -> Option Failure) : Nat -> Scheduler -> List Entry
  | 0, _ => []
  | n + 1, s =>
      if !s.mayDispatch then []
      else match s.queue.pop with
        | (none, _) => []
        | (some task, queue) =>
            match s.collectors.acquire fails with
            | none => []
            | some (.ok collector, collectors) =>
                (if s.collectors.pool.mustConstruct
                  then [Entry.construction task.file (some collector.thing)] else []) ++
                  launchLog fails n ({ s with queue, collectors }.assign task collector)
            | some (.error _, _) => [.construction task.file none]

/-- The constructions in `dispatch`. -/
def dispatchLog (s : Scheduler) (fails : Nat -> Option Failure) : List Entry :=
  let s := s.freeSlots
  launchLog fails (s.capacity - s.jobs.length) s

end Scheduler

/-- What the waiter does next. -/
inductive Chore where
  | enterSync
  | leaveSync (tickets : List Nat)
  | sweep
  | dispatch
  | check
deriving DecidableEq, Repr

namespace Chore

/-- One time round. -/
def round : List Chore := [enterSync, sweep, dispatch, check]

/-- What comes after a synchronisation, before the rest of the round. -/
def afterSync (resume : Bool) : List Chore := if resume then [sweep, dispatch] else [sweep]

end Chore

structure Drain where
  scheduler : Scheduler
  log : List Entry
  /-- What the waiter has still to do; nothing once it is done waiting. -/
  waiter : List Chore
  /-- The rounds of handing out that others have still to do. -/
  owed : Nat

namespace Drain

/-- Somebody begins to wait. -/
def start (s : Scheduler) (owed : Nat) : Drain := ⟨s, [], Chore.round, owed⟩

/-- Hand out what can be handed out. -/
def dispatch (fails : Nat -> Option Failure) (d : Drain) : Drain :=
  { d with
    scheduler := d.scheduler.dispatch fails
    log := d.log ++ d.scheduler.dispatchLog fails }

/-- Do a chore of which `rest` is left to do afterwards. -/
def perform (fails : Nat -> Option Failure) (d : Drain) (rest : List Chore) :
    Chore -> Option Drain
  | .enterSync =>
      let s := d.scheduler
      some { d with
        scheduler := { s with syncing := s.syncing + 1 }
        waiter := .leaveSync (Crew.tickets s) :: rest }
  | .leaveSync tickets =>
      -- the waiter sleeps until the last of these jobs has ended
      if Crew.haveEnded d.scheduler tickets then
        let s := Crew.leave d.scheduler
        some { d with scheduler := s, waiter := Chore.afterSync s.mayDispatch ++ rest }
      else none
  | .sweep => some { d with scheduler := d.scheduler.freeSlots, waiter := rest }
  | .dispatch => some { d.dispatch fails with waiter := rest }
  | .check => some { d with waiter := if d.scheduler.isIdle then [] else Chore.round }

/-- Who takes the next step. -/
inductive Turn where
  | wait
  | handOut
  | finish (ticket : Nat) (ending : Ending)
deriving DecidableEq, Repr

/-- The drain after a turn, where the turn is possible. -/
def turn? (fails : Nat -> Option Failure) (d : Drain) : Turn -> Option Drain
  | .wait =>
      match d.waiter with
      | [] => none
      | chore :: rest => d.perform fails rest chore
  | .handOut => if d.owed = 0 then none else some { d.dispatch fails with owed := d.owed - 1 }
  | .finish ticket ending =>
      match d.scheduler.job? ticket with
      | some job =>
          if job.isFinished then none
          else some { d with
            scheduler := d.scheduler.finish job ending.outcome ending.poisons
            log := d.log ++ [.ended job ending]
            owed := d.owed + 1 }
      | none => none

/-- The drain after some turns. -/
def run? (fails : Nat -> Option Failure) (d : Drain) (turns : List Turn) : Option Drain :=
  turns.foldlM (turn? fails) d

/-!
# What the log tells
-/

/-- The constructions for the task of a file: the collectors made, and the failures. -/
def constructionsFor (log : List Entry) (file : FileId) : List (Option Nat) :=
  log.filterMap fun
    | .construction file' collector => if file' = file then some collector else none
    | .ended _ _ => none

/-- The jobs that ended. -/
def ends (log : List Entry) : List (Job × Ending) :=
  log.filterMap fun
    | .construction _ _ => none
    | .ended job ending => some (job, ending)

/-- The jobs of a file that ended. -/
def endsOf (log : List Entry) (file : FileId) : List (Job × Ending) :=
  (ends log).filter fun e => decide (e.1.task.file = file)

/-- The collectors on which a task panicked. -/
def broken (log : List Entry) : List Nat :=
  ((ends log).filter fun e => e.2.poisons).map fun e => e.1.collector.thing

/-- The jobs that a worker has in hand. -/
def running (s : Scheduler) : List Job := s.jobs.filter fun job => !job.isFinished

/-- The reports on the task of a file. -/
def reportsOn (s : Scheduler) (file : FileId) : List TaskReport :=
  s.reports.filter fun report => decide (report.file = file)

end Drain
end SymbolIndex
