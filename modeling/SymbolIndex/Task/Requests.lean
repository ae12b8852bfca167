import SymbolIndex.Task.Queue

/-!
# Requests to a task queue

Tasks are added, taken and removed, one request after the other. Every task that was
added leaves the queue once: it is handed out, or its file is removed, or a newer task of
its file replaces it.
-/

namespace SymbolIndex

inductive QueueRequest where
  | addOrUpdate (tasks : List Task)
  | take (n : Nat)
  | remove (files : List FileId)

inductive QueueAnswer where
  | done
  | tasks (taken : List Task)
  | count (removed : Nat)
deriving DecidableEq

namespace QueueRequest

/-- The tasks that a request adds. -/
def added : QueueRequest -> List Task
  | addOrUpdate tasks => tasks
  | _ => []

end QueueRequest

namespace QueueAnswer

/-- The tasks that an answer hands out. -/
def handed : QueueAnswer -> List Task
  | tasks taken => taken
  | _ => []

end QueueAnswer

namespace TaskQueue

def serve (q : TaskQueue) : QueueRequest -> QueueAnswer × TaskQueue
  | .addOrUpdate tasks => (.done, q.addOrUpdate tasks)
  | .take n => (.tasks (take n q).1, (take n q).2)
  | .remove files => (.count (q.removedCount files), q.remove files)

/-- The queue after some requests. -/
def after (q : TaskQueue) : List QueueRequest -> TaskQueue
  | [] => q
  | r :: rest => (q.serve r).2.after rest

/-- What some requests are answered, in their order. -/
def answers (q : TaskQueue) : List QueueRequest -> List QueueAnswer
  | [] => []
  | r :: rest => (q.serve r).1 :: (q.serve r).2.answers rest

/-!
# Tasks that leave
-/

/-- The pending tasks that newer ones replace when some are added one after the other. -/
def replaced (q : TaskQueue) : List Task -> List Task
  | [] => []
  | task :: rest => (q.get? task.file).toList ++ (q.push task).replaced rest

/-- The tasks that a request makes leave without handing them out. -/
def discarded (q : TaskQueue) : QueueRequest -> List Task
  | .addOrUpdate tasks => q.replaced tasks
  | .take _ => []
  | .remove files => q.toList.filter fun task => files.contains task.file

/-- The tasks that left during some requests and were not handed out. -/
def allDiscarded (q : TaskQueue) : List QueueRequest -> List Task
  | [] => []
  | r :: rest => q.discarded r ++ (q.serve r).2.allDiscarded rest

/-- The tasks that were handed out during some requests. -/
def allHanded (q : TaskQueue) (requests : List QueueRequest) : List Task :=
  (q.answers requests).flatMap QueueAnswer.handed

end TaskQueue
end SymbolIndex
