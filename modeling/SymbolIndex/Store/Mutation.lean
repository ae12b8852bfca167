import SymbolIndex.Store
import SymbolIndex.Task

/-!
# Mutations of the store

Each mutation gives the whole new store or a failure, so that nothing is ever seen
half done. The ones that may find nothing to do also say whether they wrote.
-/

namespace SymbolIndex

/-- What became of a result set. -/
inductive ApplyOutcome where
  | applied (symbols locations : Nat)
  | unchanged
  | stale
deriving DecidableEq, Repr

namespace Store

/--
Store a part and make it the owner of `files`, which must be stored paths. A file
that was indexed under another part loses its records.
-/
def updatePart (s : Store) (part : PartId) (arguments : List String) (files : List FileId) :
    Except Failure Store :=
  if files.all s.hasSource then
    let kept := s.dropSymbols fun row => files.contains row.file && decide (row.part ≠ part)
    .ok { kept with
      parts := s.parts.insert part (.written arguments)
      members := files.foldl (fun t file => t.insert file part)
        (s.members.restrict fun _ owner => decide (owner ≠ part))
      statuses := s.statuses.restrict fun file row =>
        !(files.contains file && decide (row.part ≠ part)) }
  else .error (.storage .foreignKey)

/-- Drop a part, its memberships and everything recorded under it. -/
def removePart (s : Store) (part : PartId) : Store :=
  let kept := s.dropSymbols fun row => decide (row.part = part)
  { kept with
    parts := s.parts.erase part
    members := s.members.restrict fun _ owner => decide (owner ≠ part)
    statuses := s.statuses.restrict fun _ row => decide (row.part ≠ part) }

/-- Drop what is recorded about a file, but not that it belongs to a part. -/
def clearFile (s : Store) (file : FileId) : Store :=
  let kept := s.dropSymbols fun row => decide (row.file = file)
  { kept with
    locations := kept.locations.filter fun l => decide (l.file ≠ file)
    statuses := s.statuses.erase file }

/-- Drop what is recorded about a file, and that it belongs to a part. -/
def removeFile (s : Store) (file : FileId) : Store :=
  { s.clearFile file with members := s.members.erase file }

/-- Whether anything is recorded about a file. -/
def hasRecords (s : Store) (file : FileId) : Bool :=
  s.symbols.any (fun row => decide (row.file = file))
    || s.locations.any (fun l => decide (l.file = file))
    || s.statuses.contains file

/-!
# Applying results
-/

/-- The first location that names no symbol of the results. -/
def strayLocation? (r : Results) : Option CollectedLocation :=
  r.locations.find? fun l => decide (r.symbols.length ≤ l.symbol)

def strayFailure (l : CollectedLocation) : Failure :=
  .collector ("location " ++ toString l.line.toNat ++ ":" ++ toString l.column.toNat
    ++ " refers to unknown symbol index " ++ toString l.symbol)

/-- The symbols of a result set under the numbers from `first` on. -/
def symbolRows (file : FileId) (part : PartId) : Nat -> List CollectedSymbol -> List SymbolRow
  | _, [] => []
  | first, symbol :: rest =>
      ⟨⟨first⟩, symbol.usr, symbol.name, symbol.kind.text, file, part⟩
        :: symbolRows file part (first + 1) rest

def locationRow (file : FileId) (first : Nat) (l : CollectedLocation) : LocationRow :=
  ⟨⟨(first + l.symbol : Nat)⟩, file, l.line, l.column, l.role.text⟩

def putStatus (s : Store) (file : FileId) (row : StatusRow) : Store :=
  { s with statuses := s.statuses.insert file row }

/-- The records of a file replaced by a result set. -/
def replaceRecords (s : Store) (file : FileId) (part : PartId) (r : Results) : Store :=
  let kept := s.dropSymbols fun row => decide (row.file = file)
  { kept with
    symbols := kept.symbols ++ symbolRows file part s.nextSymbol r.symbols
    locations := kept.locations ++ r.locations.map (locationRow file s.nextSymbol)
    nextSymbol := s.nextSymbol + r.symbols.length }

/-- Whether a task's file still belongs to the task's part. -/
def isCurrent (s : Store) (task : Task) : Bool :=
  s.parts.contains task.part && s.members.get? task.file == some task.part

/--
Replace the records of a task's file by the results of collecting it. A task whose
file has left its part changes nothing, and neither do results that are stored
already, except that the status of the file is brought up to date. The flag tells
whether the store was written.
-/
def applyResults (s : Store) (task : Task) (status : FileStatus) (r : Results) :
    Except Failure (ApplyOutcome × Bool × Store) :=
  if !s.isCurrent task then .ok (.stale, false, s)
  else
    let row := StatusRow.write task.part status r.digest
    let same := match s.statuses.get? task.file with
      | some old => decide (old.part = task.part) && old.digest == r.digest
      | none => false
    if same then
      if s.statuses.get? task.file = some row then .ok (.unchanged, false, s)
      else .ok (.unchanged, true, s.putStatus task.file row)
    else match strayLocation? r with
      | some l => .error (strayFailure l)
      | none =>
          .ok (.applied r.symbols.length r.locations.length, true,
            (s.replaceRecords task.file task.part r).putStatus task.file row)

/-!
# Direct changes of stored text
-/

def setArguments (s : Store) (part : PartId) (text : String) : Store :=
  { s with parts := s.parts.adjust part fun _ => .raw text }

def setKind (s : Store) (symbol : SymbolId) (text : String) : Store :=
  { s with symbols := s.symbols.map fun row => if row.id = symbol then { row with kind := text } else row }

def setRole (s : Store) (symbol : SymbolId) (text : String) : Store :=
  { s with locations := s.locations.map fun l => if l.symbol = symbol then { l with role := text } else l }

end Store
end SymbolIndex
