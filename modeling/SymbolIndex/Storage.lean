import SymbolIndex.Store.Mutation
import SymbolIndex.Store.Query

/-!
# Storage

A store together with the number of changes that were written to it. Storing a part
always writes; every other mutation writes exactly when it changes something.
-/

namespace SymbolIndex

structure Storage where
  store : Store
  writes : Nat
deriving DecidableEq

namespace Storage

def ofStore (s : Store) : Storage := ⟨s, 0⟩

/-- The next store, counted as a write if it was one. -/
def advance (t : Storage) (wrote : Bool) (s : Store) : Storage :=
  ⟨s, if wrote then t.writes + 1 else t.writes⟩

def updatePart (t : Storage) (part : PartId) (arguments : List String) (files : List FileId) :
    Except Failure Storage :=
  (t.store.updatePart part arguments files).map (t.advance true)

def hasPart (t : Storage) (part : PartId) : Bool := t.store.parts.contains part

/-- Delete a part; the answer tells whether it was stored. -/
def removePart (t : Storage) (part : PartId) : Bool × Storage :=
  if t.hasPart part then (true, t.advance true (t.store.removePart part)) else (false, t)

def removeFile (t : Storage) (file : FileId) : Storage :=
  t.advance (t.store.hasRecords file || t.store.members.contains file) (t.store.removeFile file)

def clearFile (t : Storage) (file : FileId) : Storage :=
  t.advance (t.store.hasRecords file) (t.store.clearFile file)

def applyResults (t : Storage) (task : Task) (status : FileStatus) (r : Results) :
    Except Failure (ApplyOutcome × Storage) :=
  (t.store.applyResults task status r).map fun (outcome, wrote, s) => (outcome, t.advance wrote s)

end Storage
end SymbolIndex
