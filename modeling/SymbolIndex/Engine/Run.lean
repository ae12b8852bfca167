import SymbolIndex.Engine.Changes
import SymbolIndex.Engine.Parts

/-!
# Running tasks

The steps of a worker, and the order in which they are taken when nothing else is going
on: every job is carried to its end before the next one, and the worker that ends a job
hands out new ones.
-/

namespace SymbolIndex
namespace Engine

/-- End a job. -/
def finishJob (e : Engine) (job : Job) (outcome : TaskOutcome) (poisoned : Bool) : Engine :=
  { e with scheduler := e.scheduler.finish job outcome poisoned }

def setStage (e : Engine) (job : Job) (stage : Stage) : Engine :=
  { e with scheduler := e.scheduler.setStage job.ticket stage }

/-- A worker begins: it finds the file, notes its status and calls the collector. -/
def begin (env : Environment) (e : Engine) (job : Job) : Engine :=
  match e.path? job.task.file with
  | none => e.finishJob job (.parseFailed (Failure.unknownFile job.task.file).message) false
  | some p =>
      let e := e.consult job.task.file
      match e.overlay.currentStatus env.disk p with
      | .error fault =>
          e.finishJob job (.parseFailed (p.display ++ ": " ++ (Failure.io fault).message)) false
      | .ok status =>
          let e := e.setStage job (.reading p status)
          if env.logsCalls then { e with log := e.log.begin p job.task.arguments } else e

/-- The collector answers. -/
def collect (env : Environment) (e : Engine) (job : Job) (p : Path) (status : FileStatus) : Engine :=
  let answer := env.collect e.overlay p job.task.arguments
  let e := if env.logsCalls then { e with log := e.log.finish } else e
  match answer with
  | .results r => e.setStage job (.collected status r)
  | .failed failure => e.finishJob job (.parseFailed failure.message) false
  | .panicked _ => e.finishJob job (.parseFailed ("collector panicked on " ++ p.display)) true

def outcomeOf : ApplyOutcome -> TaskOutcome
  | .applied symbols locations => .indexed symbols locations
  | .unchanged => .unchanged
  | .stale => .stale

/-- The results are stored. -/
def store (e : Engine) (job : Job) (status : FileStatus) (r : Results) : Engine :=
  match e.storage.applyResults job.task status r with
  | .ok (outcome, storage) => { e with storage }.finishJob job (outcomeOf outcome) false
  | .error failure => e.finishJob job (.storageFailed failure.message) false

/-- The next step of a job. -/
def stepJob (env : Environment) (e : Engine) (job : Job) : Engine :=
  match job.stage with
  | .assigned => begin env e job
  | .reading p status => collect env e job p status
  | .collected status r => e.store job status r
  | .finished _ => e

def stepTicket (env : Environment) (e : Engine) (ticket : Nat) : Engine :=
  match e.scheduler.job? ticket with
  | some job => stepJob env e job
  | none => e

/-- Carry a job to its end. -/
def runJob (env : Environment) (e : Engine) (ticket : Nat) : Engine :=
  stepTicket env (stepTicket env (stepTicket env e ticket) ticket) ticket

/-- Carry the first unfinished jobs to their ends, each followed by its worker handing out more. -/
def runJobs (env : Environment) : Nat -> Engine -> Engine
  | 0, e => e
  | fuel + 1, e =>
      match e.scheduler.unfinished? with
      | none => e
      | some job => runJobs env fuel (dispatch env (runJob env e job.ticket))

/-- Begin the jobs that were handed out; those that end at once make room for others. -/
def beginJobs (env : Environment) : Nat -> Engine -> Engine
  | 0, e => e
  | fuel + 1, e =>
      match e.scheduler.assigned? with
      | none => e
      | some job =>
          let e := begin env e job
          let ended := match e.scheduler.job? job.ticket with
            | some job => job.isFinished
            | none => true
          beginJobs env fuel (if ended then dispatch env e else e)

/-- More than the rounds that the tasks at hand can take: each is run once or refused a few times. -/
def rounds (e : Engine) : Nat :=
  (Scheduler.retryLimit + 2) * (e.scheduler.queue.size + e.scheduler.jobs.length + 1)

/-- Let the workers go on as long as they can by themselves. -/
def settle (env : Environment) (e : Engine) : Engine := runJobs env e.rounds e

/-- Let the workers go on up to the answers of their collectors. -/
def settleHeld (env : Environment) (e : Engine) : Engine := beginJobs env e.rounds e

def drainFrom (env : Environment) : Nat -> Engine -> Engine
  | 0, e => e
  | fuel + 1, e =>
      let e := dispatch env (settle env e)
      if e.scheduler.isIdle then e else drainFrom env fuel e

/-- Go on until nothing is running and nothing could be. -/
def drain (env : Environment) (e : Engine) : Engine := drainFrom env e.rounds e

/-- Stop handing out tasks and wait for those that are running. -/
def stop (env : Environment) (e : Engine) : Engine :=
  let e := { e with scheduler := e.scheduler.disable }
  let e := settle env e
  { e with scheduler := e.scheduler.freeSlots }

/-!
# Notifications
-/

/-- Handle the notifications that wait, with time for other things after each. -/
def deliverFrom (env : Environment) (meanwhile : Engine -> Engine) :
    Nat -> Engine -> List (PathChange × Nat) × Engine
  | 0, e => ([], e)
  | fuel + 1, e =>
      match e.watcher.receive with
      | none => ([], e)
      | some (change, watcher) =>
          let (n, e) := handleChange env { e with watcher } change
          let (more, e) := deliverFrom env meanwhile fuel (meanwhile e)
          ((change, n) :: more, e)

/-- Handling a notification sends none, so those that wait are all there will be. -/
def deliver (env : Environment) (meanwhile : Engine -> Engine) (e : Engine) :
    List (PathChange × Nat) × Engine :=
  deliverFrom env meanwhile e.watcher.outbox.length e

/-- Handle the notifications that wait, one right after the other. -/
def receiveAll (env : Environment) (e : Engine) : List (PathChange × Nat) × Engine :=
  deliver env id e

/-- Go on until no notification waits and nothing is running. -/
def quiesce (env : Environment) (e : Engine) : List (PathChange × Nat) × Engine :=
  deliver env (drain env) (drain env e)

/--
While collectors are held the workers go on up to the answers of their collectors;
notifications are handled as ever.
-/
def quiesceHeld (env : Environment) (e : Engine) : List (PathChange × Nat) × Engine :=
  deliver env (settleHeld env) (settleHeld env e)

def flush (env : Environment) (e : Engine) (events : List Path) : Engine :=
  { e with watcher := e.watcher.flush env.disk events }

/-- A new engine on the same store; the log of collections goes on. -/
def restart (e : Engine) (concurrency : Nat) : Engine :=
  start e.storage.store concurrency e.log

end Engine
end SymbolIndex
