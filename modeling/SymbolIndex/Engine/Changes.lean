import SymbolIndex.Engine

/-!
# Changes of files

What the engine does when the watcher reports files, and when generated contents are set
or dropped.
-/

namespace SymbolIndex
namespace Engine

/-- Index those of the changed files that are owned and out of date. -/
def handleChanged (env : Environment) (e : Engine) (files : List FileId) : Nat × Engine :=
  let e := files.foldl (look env) e
  let (outdated, e) := candidates env false e (files.filter e.isOwned)
  let (enqueued, e) := e.reindex outdated
  (enqueued, if 0 < enqueued then dispatch env e else e)

/-- Retire the removed files that are owned; those that only cannot be watched are kept as members. -/
def handleRemoved (e : Engine) (files : List FileId) : Nat × Engine :=
  let owned := files.filter e.isOwned
  let unwatchable := owned.filter e.watcher.isUnwatchable
  let removed := owned.filter fun file => !e.watcher.isUnwatchable file
  let e := e.detach unwatchable
  (removed.length, e.retire removed)

def handleChange (env : Environment) (e : Engine) : PathChange -> Nat × Engine
  | .changed files => handleChanged env e files
  | .removed files => handleRemoved e files

/-!
# Generated files
-/

/-- Set contents; the ids of the files whose content is new. -/
def setContents : Engine -> List (Path × String) -> List FileId × Engine
  | e, [] => ([], e)
  | e, (p, content) :: rest =>
      let (id, e) := e.intern p
      let isNew := !e.overlay.holds p content
      let (more, e) := setContents { e with overlay := e.overlay.insert p content } rest
      (if isNew then id :: more else more, e)

/-- Set the contents of generated files, which are not watched, and index them again. -/
def updateGenerated (env : Environment) (e : Engine) (files : List (Path × String)) : Nat × Engine :=
  let (changed, e) := setContents e files
  if changed.isEmpty then (0, e)
  else handleChange env { e with watcher := e.watcher.remove changed } (.changed changed)

/-- The files whose generated content is dropped: those on the disk, with their paths, and the others. -/
def dropContents (d : Disk) : Engine -> List Path -> (List (FileId × Path) × List FileId) × Engine
  | e, [] => (([], []), e)
  | e, p :: rest =>
      if e.overlay.contains p then
        let (id, e) := { e with overlay := e.overlay.erase p }.intern p
        let ((onDisk, missing), e) := dropContents d e rest
        (if d.doesExist p then ((id, p) :: onDisk, missing) else (onDisk, id :: missing), e)
      else dropContents d e rest

/-- Drop generated contents: files that are on the disk are watched and indexed again, the others go. -/
def removeGenerated (env : Environment) (e : Engine) (paths : List Path) : Nat × Engine :=
  let ((onDisk, missing), e) := dropContents env.disk e paths
  let watched := onDisk.filter fun f => e.isOwned f.1
  let e := { e with watcher := e.watcher.add env.backend watched }
  let (enqueued, e) :=
    if onDisk.isEmpty then (0, e) else handleChange env e (.changed (onDisk.map Prod.fst))
  let (retired, e) := if missing.isEmpty then (0, e) else handleChange env e (.removed missing)
  (enqueued + retired, e)

end Engine
end SymbolIndex
