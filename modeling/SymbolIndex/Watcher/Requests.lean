import SymbolIndex.Watcher

/-!
# Requests to a watcher

Files are added and removed, and batches of raw events are reported, one request after
the other.
-/

namespace SymbolIndex

inductive WatchRequest where
  | add (files : List (FileId × Path))
  | remove (ids : List FileId)
  | flush (d : Disk) (events : List Path)

namespace WatchRequest

/-- The files that a request asks to be watched. -/
def added : WatchRequest -> List (FileId × Path)
  | add files => files
  | remove _ => []
  | flush _ _ => []

end WatchRequest

namespace Watcher

def serve (b : Backend) (w : Watcher) : WatchRequest -> Watcher
  | .add files => w.add b files
  | .remove ids => w.remove ids
  | .flush d events => w.flush d events

/-- A new watcher after some requests. -/
def after (b : Backend) (requests : List WatchRequest) : Watcher :=
  requests.foldl (serve b) empty

end Watcher
end SymbolIndex
