import SymbolIndex.Scheduler

/-!
# Crews

A scheduler in the hands of several threads, each with a list of errands. Sweeping up,
handing out and the two ends of a synchronisation need the key to the scheduler, which
one thread has at a time; a worker ends its job without it. A sweep looks at every job
twice, first for a collector to give back and then whether the job is running, and
keeps the key between the looks.
-/

namespace SymbolIndex

/-- Something that a thread has to do. -/
inductive Errand where
  | enqueue (tasks : List Task)
  | drop (files : List FileId)
  | disable
  | sweep
  | launch
  | enterSync
  | leaveSync (tickets : List Nat)
deriving DecidableEq, Repr

namespace Errand

/-- Handing out tasks begins with a sweep. -/
def dispatch : List Errand := [sweep, launch]

/-- What comes after a synchronisation. -/
def afterSync (resume : Bool) : List Errand := if resume then sweep :: dispatch else [sweep]

end Errand

/-- What somebody may ask of the scheduler. -/
inductive Request where
  | submit (tasks : List Task)
  | drop (files : List FileId)
  | dispatch
  | freeSlots
  | sync
  | disable
deriving DecidableEq, Repr

namespace Request

def errands : Request -> List Errand
  | submit tasks => .enqueue tasks :: Errand.dispatch
  | drop files => [.drop files]
  | dispatch => Errand.dispatch
  | freeSlots => [.sweep]
  | sync => [.enterSync]
  | disable => [.disable]

end Request

/-- A sweep that is going on: the jobs to be looked at, and whether the first was looked at once. -/
structure Sweep where
  ahead : List Nat
  looked : Bool
deriving DecidableEq, Repr

structure Crew where
  scheduler : Scheduler
  sweep : Option Sweep
  threads : List (List Errand)

namespace Crew

def start (s : Scheduler) : Crew := ⟨s, none, []⟩

/-- Nobody has anything left to do. -/
def isQuiet (c : Crew) : Bool := c.sweep.isNone && c.threads.all List.isEmpty

/-- Take a job off the list of the scheduler. -/
def strike (s : Scheduler) (ticket : Nat) : Scheduler :=
  { s with jobs := s.jobs.filter fun job => decide (job.ticket ≠ ticket) }

/--
The next look of the sweep. At the first look a finished job goes, and its collector is
given back; at the second look a finished job just goes.
-/
def look (c : Crew) (w : Sweep) : Option Crew :=
  match w.ahead with
  | [] => some { c with sweep := none }
  | ticket :: rest => do
      let job ← c.scheduler.job? ticket
      match w.looked, job.isFinished with
      | false, true =>
          let s := strike c.scheduler ticket
          some { c with
            scheduler := { s with collectors := Scheduler.giveBack s.collectors job }
            sweep := some ⟨rest, false⟩ }
      | false, false => some { c with sweep := some ⟨ticket :: rest, true⟩ }
      | true, true => some { c with scheduler := strike c.scheduler ticket, sweep := some ⟨rest, false⟩ }
      | true, false => some { c with sweep := some ⟨rest, false⟩ }

def tickets (s : Scheduler) : List Nat := s.jobs.map Job.ticket

/-- Whether none of the jobs is running any more. -/
def haveEnded (s : Scheduler) (tickets : List Nat) : Bool :=
  s.jobs.all fun job => job.isFinished || !tickets.contains job.ticket

def isLocked (c : Crew) : Bool := c.sweep.isSome

/-- Leave a synchronisation; the last one to leave resumes handing out. -/
def leave (s : Scheduler) : Scheduler := { s with syncing := s.syncing - 1 }

/-- Do an errand: the crew after it, and what the thread has to do because of it. -/
def perform (fails : Nat -> Option Failure) (c : Crew) : Errand -> Option (Crew × List Errand)
  | .enqueue tasks => some ({ c with scheduler := c.scheduler.enqueue tasks }, [])
  | .drop files => some ({ c with scheduler := c.scheduler.dropTasks files }, [])
  | .disable =>
      if c.isLocked then none else some ({ c with scheduler := c.scheduler.disable }, [])
  | .sweep =>
      if c.isLocked then none else some ({ c with sweep := some ⟨tickets c.scheduler, false⟩ }, [])
  | .launch =>
      if c.isLocked then none
      else
        let s := c.scheduler
        some ({ c with scheduler := s.launch fails (s.capacity - s.jobs.length) }, [])
  | .enterSync =>
      if c.isLocked then none
      else
        let s := c.scheduler
        some ({ c with scheduler := { s with syncing := s.syncing + 1 } }, [.leaveSync (tickets s)])
  | .leaveSync tickets =>
      if c.isLocked || !haveEnded c.scheduler tickets then none
      else
        let s := leave c.scheduler
        some ({ c with scheduler := s }, Errand.afterSync s.mayDispatch)

/-- What may happen next. -/
inductive Move where
  | ask (request : Request)
  | go (thread : Nat)
  | look
  | finish (ticket : Nat) (outcome : TaskOutcome) (poisoned : Bool)
deriving DecidableEq, Repr

/-- The crew after a move, where the move is possible. -/
def move? (fails : Nat -> Option Failure) (c : Crew) : Move -> Option Crew
  | .ask request => some { c with threads := c.threads ++ [request.errands] }
  | .go thread =>
      match c.threads[thread]? with
      | some (errand :: rest) => do
          let (c, more) ← perform fails c errand
          some { c with threads := c.threads.set thread (more ++ rest) }
      | _ => none
  | .look => c.sweep.bind c.look
  | .finish ticket outcome poisoned =>
      match c.scheduler.job? ticket with
      | some job =>
          if job.isFinished then none
          else some { c with
            scheduler := c.scheduler.finish job outcome poisoned
            threads := c.threads ++ [Errand.dispatch] }
      | none => none

/-- The crew after some moves. -/
def run? (fails : Nat -> Option Failure) (c : Crew) (moves : List Move) : Option Crew :=
  moves.foldlM (move? fails) c

end Crew
end SymbolIndex
