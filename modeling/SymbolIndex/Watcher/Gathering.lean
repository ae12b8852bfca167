import SymbolIndex.Watcher

/-!
# Gathering raw events

Raw events are gathered, each path once, until the time of a batch is over. Then file
after file is looked up on the disk, in ascending order; one that is gone leaves the
watcher at once, while the files after it are still to be looked up.
-/

namespace SymbolIndex

structure Gathering where
  watcher : Watcher
  batch : List Path

namespace Gathering

/-- A raw event arrives. -/
def note (g : Gathering) (p : Path) : Gathering :=
  if g.batch.any p.same then g else { g with batch := g.batch ++ [p] }

/-- The files that are there, those that are gone, and the watcher without the latter. -/
def lookUp (d : Disk) (w : Watcher) : List FileId -> List FileId × List FileId × Watcher
  | [] => ([], [], w)
  | id :: rest =>
      if w.isOnDisk d id then
        let (changed, removed, w) := lookUp d w rest
        (id :: changed, removed, w)
      else
        let (changed, removed, w) := lookUp d (w.drop id) rest
        (changed, id :: removed, w)

/-- The time of a batch is over. -/
def flush (g : Gathering) (d : Disk) : Gathering :=
  let (changed, removed, w) := lookUp d g.watcher (g.watcher.touched g.batch)
  let w := if changed.isEmpty then w else w.send (.changed changed)
  ⟨if removed.isEmpty then w else w.send (.removed removed), []⟩

end Gathering
end SymbolIndex
