import SymbolIndex.Engine

/-!
# Submitting parts

A submission is first checked as a whole: malformed parts are refused, and so is a part
that claims a file which an earlier part of the same submission has. The parts that are
left are applied one after the other, each compared with what was known about it:
files that left it are retired, files it takes over leave their former part, and files
whose records are out of date are enqueued.
-/

namespace SymbolIndex

structure UpdateReport where
  enqueued : Nat
  removed : Nat
  rejected : List Failure
deriving DecidableEq

/-- A part that passed the checks, with the ids of its files. -/
structure PreparedPart where
  id : PartId
  arguments : List String
  files : List FileId
deriving DecidableEq

namespace Engine

/-- The first file that is claimed already, with the part that claimed it. -/
def conflict? (claimed : Table FileId PartId) : List (FileId × Path) -> Option (Path × PartId)
  | [] => none
  | (file, p) :: rest =>
      match claimed.get? file with
      | some first => some (p, first)
      | none => conflict? claimed rest

/-- Check one part against the files that were claimed before. -/
def prepareOne (e : Engine) (claimed : Table FileId PartId) (part : Part) :
    Except Failure PreparedPart × Engine :=
  match part.problem? with
  | some reason => (.error (.invalidPart part.id.name reason), e)
  | none =>
      let (files, e) := e.internAll part.files
      match conflict? claimed (files.zip part.files) with
      | some (p, first) => (.error (.duplicateFile p first.name part.id.name), e)
      | none => (.ok ⟨part.id, part.commandLine, files.eraseDups⟩, e)

def claim (claimed : Table FileId PartId) (part : PreparedPart) : Table FileId PartId :=
  part.files.foldl (fun t file => t.insert file part.id) claimed

/-- Go through a submission: the parts that pass, and why the others do not. -/
def prepare (claimed : Table FileId PartId) :
    Engine -> List Part -> (List PreparedPart × List Failure) × Engine
  | e, [] => (([], []), e)
  | e, part :: rest =>
      match e.prepareOne claimed part with
      | (.error failure, e) =>
          let ((accepted, rejected), e) := prepare claimed e rest
          ((accepted, failure :: rejected), e)
      | (.ok prepared, e) =>
          let ((accepted, rejected), e) := prepare (claim claimed prepared) e rest
          ((prepared :: accepted, rejected), e)

/-- What was known about a part: as submitted before, else as stored. -/
def previous (e : Engine) (id : PartId) : Except Failure (Option Snapshot) :=
  match e.parts.get? id with
  | some snapshot => .ok (some snapshot)
  | none =>
      (e.storage.store.fetchPart id).map fun stored =>
        stored.map fun part => ⟨part.arguments, part.files⟩

/-- A file that a part takes over leaves the part that owned it. -/
def takeOver (part : PartId) (e : Engine) (file : FileId) : Engine :=
  match e.ownerOf file with
  | none => e
  | some owner => if owner = part then e else e.leaveSnapshot owner file

def sameFiles (a b : List FileId) : Bool :=
  a.all (fun file => b.contains file) && b.all (fun file => a.contains file)

/-- The files of a part that are not generated, with their paths. -/
def watchable (e : Engine) (files : List FileId) : List (FileId × Path) :=
  files.filterMap fun file =>
    match e.path? file with
    | some p => if e.overlay.contains p then none else some (file, p)
    | none => none

def watch (env : Environment) (e : Engine) (files : List (FileId × Path)) : Engine :=
  { e with watcher := e.watcher.add env.backend files }

/-- Make a part the owner of its files, in memory. -/
def adopt (e : Engine) (part : PreparedPart) : Engine :=
  { e with
    owners := part.files.foldl (fun t file => t.insert file part.id) e.owners
    parts := e.parts.insert part.id ⟨part.arguments, part.files⟩ }

/-- Store a part unless it is stored like this already. -/
def storePart (e : Engine) (part : PreparedPart) (changed : Bool) : Except Failure Engine :=
  if changed then
    (e.storage.updatePart part.id part.arguments part.files).map fun storage => { e with storage }
  else .ok e

/-- Apply one part: how many files were enqueued and how many retired. -/
def applyPart (env : Environment) (e : Engine) (part : PreparedPart) :
    Except Failure (Nat × Nat) × Engine :=
  match e.previous part.id with
  | .error failure => (.error failure, e)
  | .ok previous =>
      let oldFiles := (previous.map Snapshot.files).getD []
      let gone := oldFiles.filter fun file => !part.files.contains file && e.isFreeFor part.id file
      let e := e.retire gone
      let e := part.files.foldl (takeOver part.id) e
      let argumentsChanged := decide (previous.map Snapshot.arguments ≠ some part.arguments)
      let filesChanged := !sameFiles oldFiles part.files
      match e.storePart part (argumentsChanged || filesChanged) with
      | .error failure => (.error failure, e)
      | .ok e =>
          let e := e.adopt part
          let files := e.watchable part.files
          let e := part.files.foldl consult e
          let e := e.watch env files
          let (outdated, e) := candidates env argumentsChanged e part.files
          let (enqueued, e) := e.reindex outdated
          (.ok (enqueued, gone.length), e)

def applyParts (env : Environment) : Engine -> List PreparedPart -> UpdateReport × Engine
  | e, [] => (⟨0, 0, []⟩, e)
  | e, part :: rest =>
      match applyPart env e part with
      | (.error failure, e) =>
          let (report, e) := applyParts env e rest
          ({ report with rejected := failure :: report.rejected }, e)
      | (.ok (enqueued, removed), e) =>
          let (report, e) := applyParts env e rest
          (⟨enqueued + report.enqueued, removed + report.removed, report.rejected⟩, e)

/-- Bring the index in line with new descriptions of parts. -/
def updateParts (env : Environment) (e : Engine) (parts : List Part) : UpdateReport × Engine :=
  let ((accepted, rejected), e) := prepare ∅ e parts
  let (report, e) := applyParts env e accepted
  let e := if 0 < report.enqueued then dispatch env e else e
  ({ report with rejected := rejected ++ report.rejected }, e)

/-!
# Removing parts
-/

/-- The files of a part that is to be removed. -/
def filesOf (e : Engine) (id : PartId) : Except Failure (List FileId) :=
  match e.parts.get? id with
  | some snapshot => .ok snapshot.files
  | none => (e.storage.store.fetchPart id).map fun stored => (stored.map StoredPart.files).getD []

def removePart (e : Engine) (id : PartId) (files : List FileId) : Nat × Engine :=
  let owned := files.filter (e.isFreeFor id)
  let e := e.retire owned
  (owned.length, { e with parts := e.parts.erase id, storage := (e.storage.removePart id).2 })

/-- Remove parts with everything that is recorded about their files. -/
def removeParts : Engine -> List PartId -> Except Failure Nat × Engine
  | e, [] => (.ok 0, e)
  | e, id :: rest =>
      match e.filesOf id with
      | .error failure => (.error failure, e)
      | .ok files =>
          let (retired, e) := e.removePart id files
          let (more, e) := removeParts e rest
          (more.map (retired + ·), e)

end Engine
end SymbolIndex
