import SymbolIndex.Table
import SymbolIndex.Task

/-!
# Task queues

The pending tasks, at most one for each file. A queue keeps the files in the order in
which they came and, beside it, the newest task of each file; a newer task for a file
that is pending takes over the place in line. `toList` is the queue as the list of its
tasks in order.
-/

namespace SymbolIndex

structure TaskQueue where
  order : List FileId
  tasks : Table FileId Task

namespace TaskQueue

def empty : TaskQueue := ⟨[], ∅⟩

instance : Inhabited TaskQueue := ⟨empty⟩

def contains (q : TaskQueue) (file : FileId) : Bool := q.tasks.contains file

def get? (q : TaskQueue) (file : FileId) : Option Task := q.tasks.get? file

def size (q : TaskQueue) : Nat := q.tasks.size

def isEmpty (q : TaskQueue) : Bool := q.tasks.isEmpty

/-- The pending tasks in the order in which they will be taken. -/
def toList (q : TaskQueue) : List Task := q.order.filterMap q.tasks.get?

def push (q : TaskQueue) (task : Task) : TaskQueue :=
  { order := if q.contains task.file then q.order else q.order ++ [task.file]
    tasks := q.tasks.insert task.file task }

def addOrUpdate (q : TaskQueue) (tasks : List Task) : TaskQueue := tasks.foldl push q

/-- The first pending task and the queue without it, looking along the order `files`. -/
def popFrom (tasks : Table FileId Task) : List FileId -> Option Task × TaskQueue
  | [] => (none, ⟨[], tasks⟩)
  | file :: rest =>
      match tasks.get? file with
      | some task => (some task, ⟨rest, tasks.erase file⟩)
      | none => popFrom tasks rest

def pop (q : TaskQueue) : Option Task × TaskQueue := popFrom q.tasks q.order

/-- Take up to `n` tasks. -/
def take : Nat -> TaskQueue -> List Task × TaskQueue
  | 0, q => ([], q)
  | n + 1, q =>
      match q.pop with
      | (none, q') => ([], q')
      | (some task, q') =>
          let r := take n q'
          (task :: r.1, r.2)

/-- Drop the tasks of some files. -/
def remove (q : TaskQueue) (files : List FileId) : TaskQueue :=
  let tasks := q.tasks.eraseAll files
  ⟨if tasks.size < q.tasks.size then q.order.filter tasks.contains else q.order, tasks⟩

/-- How many tasks `remove` drops. -/
def removedCount (q : TaskQueue) (files : List FileId) : Nat :=
  q.size - (q.remove files).size

end TaskQueue
end SymbolIndex
