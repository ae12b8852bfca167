import SymbolIndex.Collector.Script
import SymbolIndex.PathBook
import SymbolIndex.Scheduler
import SymbolIndex.StatusCache
import SymbolIndex.Storage
import SymbolIndex.Watcher

/-!
# The engine

Everything that keeps the store in step with the project parts, the files on the disk
and the generated contents: the path book, the storage, the status cache, the overlay,
the scheduler, the watcher, and who owns which file. What lies outside, the disk, the
collectors and what can be watched, is an environment that every step is given.
-/

namespace SymbolIndex

/-- What the engine is told from outside. -/
structure Environment where
  disk : Disk
  collect : Overlay -> Path -> List String -> Collected
  logsCalls : Bool
  fails : Nat -> Option Failure
  backend : Backend

namespace Environment

/-- A disk whose files are collected as a script says. -/
def ofScript (s : Script) (d : Disk) : Environment :=
  { disk := d
    collect := fun _ p _ => s.collect d p
    logsCalls := true
    fails := fun _ => none
    backend := .all }

/-- A disk whose files are collected as source code. -/
def ofGrammar (g : Grammar) (d : Disk) : Environment :=
  { disk := d
    collect := Collected.ofFile g d
    logsCalls := false
    fails := fun _ => none
    backend := .ofDisk d }

end Environment

/-- A part as it was last submitted. -/
structure Snapshot where
  arguments : List String
  files : List FileId
deriving DecidableEq

structure Engine where
  book : PathBook
  storage : Storage
  statuses : StatusCache
  overlay : Overlay
  scheduler : Scheduler
  watcher : Watcher
  parts : Table PartId Snapshot
  owners : Table FileId PartId
  log : CallLog

namespace Engine

/-- An engine on a store, with the given number of collectors. -/
def start (store : Store) (concurrency : Nat) (log : CallLog) : Engine :=
  { book := .empty
    storage := .ofStore store
    statuses := .empty
    overlay := .empty
    scheduler := .ofCapacity concurrency
    watcher := .empty
    parts := ∅
    owners := ∅
    log := log }

def ownerOf (e : Engine) (file : FileId) : Option PartId := e.owners.get? file

/-- The parts known in memory, by the order of their names. -/
def partIds (e : Engine) : List PartId := e.parts.keys.mergeSort PartId.le

def isOwned (e : Engine) (file : FileId) : Bool := e.owners.contains file

/-- Whether the file is owned by no part other than `part`. -/
def isFreeFor (e : Engine) (part : PartId) (file : FileId) : Bool :=
  match e.ownerOf file with
  | none => true
  | some owner => decide (owner = part)

def withStore (e : Engine) (s : Store) : Engine := { e with storage := { e.storage with store := s } }

def intern (e : Engine) (p : Path) : FileId × Engine :=
  let (id, book, store) := e.book.intern e.storage.store p
  (id, { e with book }.withStore store)

def internAll (e : Engine) (ps : List Path) : List FileId × Engine :=
  let (ids, book, store) := e.book.internAll e.storage.store ps
  (ids, { e with book }.withStore store)

def path? (e : Engine) (id : FileId) : Option Path := e.book.path? e.storage.store id

def consult (e : Engine) (id : FileId) : Engine :=
  { e with book := e.book.consult e.storage.store id }

/-!
# Statuses
-/

/-- The status of a file as it is now. -/
def currentStatus? (env : Environment) (e : Engine) (id : FileId) : Option FileStatus :=
  (e.path? id).bind fun p => (e.overlay.currentStatus env.disk p).toOption

/-- Look at a file and note what was seen. -/
def look (env : Environment) (e : Engine) (id : FileId) : Engine :=
  let status := currentStatus? env e id
  let e := e.consult id
  { e with statuses := e.statuses.note id status }

/-!
# Tasks
-/

def dispatch (env : Environment) (e : Engine) : Engine :=
  { e with scheduler := e.scheduler.dispatch env.fails }

/-- The task that indexes a file as its owner asks. -/
def taskFor? (e : Engine) (file : FileId) : Option Task := do
  let owner ← e.owners.get? file
  let snapshot ← e.parts.get? owner
  pure ⟨file, owner, snapshot.arguments⟩

/-- Enqueue tasks for files and say how many there are. -/
def reindex (e : Engine) (files : List FileId) : Nat × Engine :=
  let tasks := files.filterMap e.taskFor?
  (tasks.length, { e with scheduler := e.scheduler.enqueue tasks })

/-- Whether what is stored about a file is out of date, given the status just seen. -/
def isOutdated (e : Engine) (file : FileId) (status : FileStatus) : Bool :=
  match e.ownerOf file with
  | none => false
  | some owner =>
      match e.storage.store.indexedFile? file with
      | some indexed => decide (indexed.part ≠ owner) || decide (indexed.status ≠ status)
      | none => true

/--
Whether a file has to be indexed: it can be watched, it is there, and its arguments
changed or what is stored about it is out of date.
-/
def needsReindex (env : Environment) (e : Engine) (file : FileId) (argumentsChanged : Bool) :
    Bool × Engine :=
  if e.watcher.isUnwatchable file then (false, e)
  else
    let seen := currentStatus? env e file
    let e := look env e file
    match seen with
    | none => (false, e)
    | some status => (argumentsChanged || e.isOutdated file status, e)

/-- The files that have to be indexed. -/
def candidates (env : Environment) (argumentsChanged : Bool) : Engine -> List FileId -> List FileId × Engine
  | e, [] => ([], e)
  | e, file :: rest =>
      let (needed, e) := needsReindex env e file argumentsChanged
      let (more, e) := candidates env argumentsChanged e rest
      (if needed then file :: more else more, e)

/-!
# Letting files go
-/

/-- Take a file out of the snapshot of a part. -/
def leaveSnapshot (e : Engine) (part : PartId) (file : FileId) : Engine :=
  { e with parts := e.parts.adjust part fun s =>
      { s with files := s.files.filter fun f => decide (f ≠ file) } }

/-- Forget what is stored about a file and who owns it. -/
def retireOne (e : Engine) (file : FileId) : Engine :=
  let e := { e with storage := e.storage.removeFile file }
  match e.ownerOf file with
  | none => e
  | some owner => { e with owners := e.owners.erase file }.leaveSnapshot owner file

/-- Forget files altogether: tasks, records, statuses, watches and memberships. -/
def retire (e : Engine) (files : List FileId) : Engine :=
  if files.isEmpty then e
  else
    let e := { e with scheduler := e.scheduler.dropTasks files }
    let e := files.foldl retireOne e
    { e with statuses := e.statuses.forget files, watcher := e.watcher.remove files }

/-- Drop the records of files that cannot be watched; they stay with their parts. -/
def detach (e : Engine) (files : List FileId) : Engine :=
  if files.isEmpty then e
  else
    let e := { e with scheduler := e.scheduler.dropTasks files }
    let e := files.foldl (fun e file => { e with storage := e.storage.clearFile file }) e
    { e with statuses := e.statuses.forget files }

end Engine
end SymbolIndex
