import SymbolIndex.Disk

/-!
# Watching files

Files are watched through the directories they are in, so that a file which is
replaced by renaming another one is still seen. A directory is watched as long as it
holds a watched file. A file whose directory cannot be watched is unwatchable until it
is removed. Raw events are gathered and then reported as at most one notification of
changed files and one of removed files.
-/

namespace SymbolIndex

inductive PathChange where
  | changed (files : List FileId)
  | removed (files : List FileId)
deriving DecidableEq, Repr

namespace PathChange

def files : PathChange -> List FileId
  | changed ids => ids
  | removed ids => ids

end PathChange

inductive WatchCall where
  | watch (directory : Path)
  | unwatch (directory : Path)
deriving DecidableEq, Repr

/-- Whether a directory can be watched, given how many calls were made before. -/
structure Backend where
  accepts : Nat -> Path -> Bool

namespace Backend

/-- Every directory can be watched. -/
def all : Backend := ⟨fun _ _ => true⟩

/-- Some directories cannot be watched. -/
def denying (denied : List Path) : Backend := ⟨fun _ directory => !denied.any directory.same⟩

/-- A disk can watch what is there. -/
def ofDisk (d : Disk) : Backend := ⟨fun _ directory => d.doesExist directory⟩

end Backend

structure Watcher where
  byPath : Table (List Component) FileId
  byId : Table FileId Path
  directories : Table (List Component) Nat
  unwatchable : Table FileId Path
  calls : List WatchCall
  outbox : List PathChange

namespace Watcher

def empty : Watcher := ⟨∅, ∅, ∅, ∅, [], []⟩

instance : Inhabited Watcher := ⟨empty⟩

def isWatched (w : Watcher) (id : FileId) : Bool := w.byId.contains id

def isUnwatchable (w : Watcher) (id : FileId) : Bool := w.unwatchable.contains id

def watchedCount (w : Watcher) : Nat := w.byId.size

/-- The directory through which a file is watched. -/
def directoryOf (p : Path) : Path :=
  match p.parent with
  | some parent => if parent.isEmpty then .ofString "." else parent
  | none => .ofString "."

def call (w : Watcher) (c : WatchCall) : Watcher := { w with calls := w.calls ++ [c] }

def send (w : Watcher) (change : PathChange) : Watcher := { w with outbox := w.outbox ++ [change] }

/-- Watch a file; the directory is watched first if it holds no watched file yet. -/
def insert (b : Backend) (w : Watcher) (id : FileId) (p : Path) : Option Watcher × Watcher :=
  let directory := directoryOf p
  let count := (w.directories.get? directory.components).getD 0
  let add : Watcher -> Watcher := fun w =>
    { w with
      directories := w.directories.insert directory.components (count + 1)
      byPath := w.byPath.insert p.components id
      byId := w.byId.insert id p }
  if count = 0 then
    let w' := w.call (.watch directory)
    if b.accepts w.calls.length directory then (some (add w'), w') else (none, w')
  else (some (add w), w)

/-- One file less is watched in a directory. -/
def leave (w : Watcher) (directory : Path) : Watcher :=
  match w.directories.get? directory.components with
  | some count =>
      if 1 < count then
        { w with directories := w.directories.insert directory.components (count - 1) }
      else
        { w with directories := w.directories.erase directory.components }.call (.unwatch directory)
  | none => w

/-- Stop watching a file. -/
def drop (w : Watcher) (id : FileId) : Watcher :=
  match w.byId.get? id with
  | none => w
  | some p =>
      { w with byId := w.byId.erase id, byPath := w.byPath.erase p.components }.leave (directoryOf p)

/-- Whether a file is known under a path, in any spelling. -/
def knows (t : Table FileId Path) (id : FileId) (p : Path) : Bool :=
  match t.get? id with
  | some q => q.same p
  | none => false

/-- Add one file; the flag says that it could not be watched. -/
def addOne (b : Backend) (w : Watcher) (id : FileId) (p : Path) : Bool × Watcher :=
  if knows w.byId id p || knows w.unwatchable id p then (false, w)
  else
    let w := w.drop id
    let w := { w with unwatchable := w.unwatchable.erase id }
    match insert b w id p with
    | (some w, _) => (false, w)
    | (none, w) => (true, { w with unwatchable := w.unwatchable.insert id p })

def addEach (b : Backend) (w : Watcher) : List (FileId × Path) -> List FileId × Watcher
  | [] => ([], w)
  | (id, p) :: rest =>
      let (failed, w) := addOne b w id p
      let (more, w) := addEach b w rest
      (if failed then id :: more else more, w)

/-- Watch files; those that cannot be watched are reported as removed, once. -/
def add (b : Backend) (w : Watcher) (files : List (FileId × Path)) : Watcher :=
  let (failed, w) := addEach b w files
  if failed.isEmpty then w else w.send (.removed failed)

def remove (w : Watcher) (ids : List FileId) : Watcher :=
  ids.foldl (fun w id => { w.drop id with unwatchable := w.unwatchable.erase id }) w

/-!
# Raw events
-/

/-- The components of the directory around a path. -/
def around (cs : List Component) : Option (List Component) :=
  match cs.getLast? with
  | none => none
  | some .root => none
  | some _ => some cs.dropLast

/-- The watched files that a raw event on a file or a directory concerns. -/
def affected (w : Watcher) (p : Path) : List FileId :=
  let cs := p.components
  match w.byPath.get? cs with
  | some id => [id]
  | none =>
      if w.directories.contains cs then
        (w.byPath.entries.filter fun e => decide (around e.1 = some cs)).map Prod.snd
      else []

/-- The watched files that a batch of raw events concerns, in ascending order. -/
def touched (w : Watcher) (events : List Path) : List FileId :=
  FileId.ascending (events.flatMap w.affected)

def isOnDisk (w : Watcher) (d : Disk) (id : FileId) : Bool :=
  match w.byId.get? id with
  | some p => d.doesExist p
  | none => false

/-- Report a batch of raw events; files that are gone are no longer watched. -/
def flush (w : Watcher) (d : Disk) (events : List Path) : Watcher :=
  let ids := w.touched events
  let changed := ids.filter (w.isOnDisk d)
  let removed := ids.filter fun id => !w.isOnDisk d id
  let w := removed.foldl drop w
  let w := if changed.isEmpty then w else w.send (.changed changed)
  if removed.isEmpty then w else w.send (.removed removed)

/-- The first notification that was not handled yet. -/
def receive (w : Watcher) : Option (PathChange × Watcher) :=
  match w.outbox with
  | [] => none
  | change :: rest => some (change, { w with outbox := rest })

/-!
# Events of a disk
-/

/-- The raw events that a watching disk sends when places are touched. -/
def eventsAt (w : Watcher) (d : Disk) (places : List Place) : List Path :=
  w.directories.keys.flatMap fun cs =>
    let directory := Path.ofComponents cs
    match d.walk directory with
    | .error _ => []
    | .ok at_ =>
        places.filterMap fun place =>
          match place.getLast? with
          | some name => if place.dropLast = at_ then some (directory.join ⟨name⟩) else none
          | none => none

end Watcher
end SymbolIndex
