import SymbolIndex.Scheduler.Crew

/-!
# Crews without gaps

A crew in which a sweep is one step, as is everything else that needs the key to the
scheduler. A thread is given calls that it makes one after the other; one that enqueues
tasks calls for a dispatch afterwards.
-/

namespace SymbolIndex
namespace Crew

/-- What a thread may be told to do. -/
inductive Call where
  | enqueue (tasks : List Task)
  | drop (files : List FileId)
  | dispatch
  | freeSlots
  | sync
  | disable
deriving DecidableEq, Repr

namespace Call

def errands : Call -> List Errand
  | enqueue tasks => [.enqueue tasks]
  | drop files => [.drop files]
  | dispatch => Errand.dispatch
  | freeSlots => [.sweep]
  | sync => [.enterSync]
  | disable => [.disable]

/-- Whether every enqueuing is followed by a dispatch. -/
def followUp : List Call -> Bool
  | [] => true
  | .enqueue _ :: rest => rest.contains .dispatch && followUp rest
  | _ :: rest => followUp rest

end Call

/-- Do an errand in one step, a sweep as well. -/
def act? (fails : Nat -> Option Failure) (c : Crew) : Errand -> Option (Crew × List Errand)
  | .sweep => some ({ c with scheduler := c.scheduler.freeSlots }, [])
  | errand => perform fails c errand

/-- What may happen next in a crew without gaps. -/
inductive Stride where
  | ask (calls : List Call)
  | go (thread : Nat)
  | finish (ticket : Nat) (outcome : TaskOutcome) (poisoned : Bool)
deriving DecidableEq, Repr

/-- The crew after a stride, where the stride is possible. -/
def stride? (fails : Nat -> Option Failure) (c : Crew) : Stride -> Option Crew
  | .ask calls =>
      if Call.followUp calls then
        some { c with threads := c.threads ++ [calls.flatMap Call.errands] }
      else none
  | .go thread =>
      match c.threads[thread]? with
      | some (errand :: rest) => do
          let (c, more) ← act? fails c errand
          some { c with threads := c.threads.set thread (more ++ rest) }
      | _ => none
  | .finish ticket outcome poisoned => move? fails c (.finish ticket outcome poisoned)

/-- The crew after some strides. -/
def strides? (fails : Nat -> Option Failure) (c : Crew) (strides : List Stride) : Option Crew :=
  strides.foldlM (stride? fails) c

end Crew
end SymbolIndex
