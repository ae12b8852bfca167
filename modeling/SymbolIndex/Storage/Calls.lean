import SymbolIndex.Path
import SymbolIndex.Storage

/-!
# Calls to storage

Everything that changes the database, one call after another. A call that fails, for a
reason of its own or because the database fails under it, is rolled back as a whole.
-/

namespace SymbolIndex

inductive StorageCall where
  | intern (path : Path)
  | updatePart (part : PartId) (arguments : List String) (files : List FileId)
  | removePart (part : PartId)
  | applyResults (task : Task) (status : FileStatus) (results : Results)
  | removeFile (file : FileId)
  | clearFile (file : FileId)
  | interrupted (call : StorageCall) (failure : Failure)

namespace Storage

/-- Storage once a call went through. -/
def perform (t : Storage) : StorageCall -> Except Failure Storage
  | .intern path => .ok { t with store := t.store.addSource path.normalize.display }
  | .updatePart part arguments files => t.updatePart part arguments files
  | .removePart part => .ok (t.removePart part).2
  | .applyResults task status results => (t.applyResults task status results).map Prod.snd
  | .removeFile file => .ok (t.removeFile file)
  | .clearFile file => .ok (t.clearFile file)
  | .interrupted _ failure => .error failure

/-- Storage after a call, whether or not it failed. -/
def attempt (t : Storage) (call : StorageCall) : Storage :=
  match t.perform call with
  | .ok after => after
  | .error _ => t

/-- Storage after a list of calls. -/
def after (t : Storage) (calls : List StorageCall) : Storage := calls.foldl attempt t

def empty : Storage := ofStore .empty

end Storage
end SymbolIndex
