import SymbolIndex.Digest
import SymbolIndex.FileStatus
import SymbolIndex.Part
import SymbolIndex.Table

/-!
# The store

The tables of the index: paths of source files, project parts, which part each file
belongs to, the state in which each file was indexed, symbols and their locations.
Paths are numbered from one in the order in which they come and are never dropped.
Symbols are numbered by a counter of their own, so that a number is never used again.
-/

namespace SymbolIndex

structure SymbolId where
  number : Int
deriving DecidableEq, Repr, Inhabited

namespace SymbolId

def display (id : SymbolId) : String := toString id.number

end SymbolId

/-- Compile arguments as stored: a list that was written, or a text that was put there by hand. -/
inductive StoredArguments where
  | written (arguments : List String)
  | raw (text : String)
deriving DecidableEq, Repr

/-- The state in which a file was indexed. The column of its size is signed. -/
structure StatusRow where
  part : PartId
  size : Int64
  modified : Int64
  digest : String
deriving DecidableEq, Repr

namespace StatusRow

def write (part : PartId) (status : FileStatus) (digest : String) : StatusRow :=
  ⟨part, status.size.toInt64, status.modified, digest⟩

def status (row : StatusRow) : FileStatus := ⟨row.size.toUInt64, row.modified⟩

@[simp] theorem status_write (part : PartId) (status : FileStatus) (digest : String) :
    (write part status digest).status = status := rfl

@[simp] theorem write_status (row : StatusRow) : write row.part row.status row.digest = row := rfl

end StatusRow

structure SymbolRow where
  id : SymbolId
  usr : String
  name : String
  kind : String
  file : FileId
  part : PartId
deriving DecidableEq, Repr

structure LocationRow where
  symbol : SymbolId
  file : FileId
  line : UInt32
  column : UInt32
  role : String
deriving DecidableEq, Repr

structure Store where
  sources : List String
  parts : Table PartId StoredArguments
  members : Table FileId PartId
  statuses : Table FileId StatusRow
  symbols : List SymbolRow
  locations : List LocationRow
  nextSymbol : Nat
deriving DecidableEq

namespace Store

def empty : Store := ⟨[], ∅, ∅, ∅, [], [], 1⟩

instance : Inhabited Store := ⟨empty⟩

/-!
# Paths of source files
-/

/-- The number of a path that is stored. -/
def sourceId? (s : Store) (text : String) : Option FileId :=
  (s.sources.findIdx? fun t => t == text).map fun i => ⟨(i : Int) + 1⟩

/-- The path that a number stands for. -/
def source? (s : Store) (id : FileId) : Option String :=
  if id.number < 1 then none else s.sources[(id.number - 1).toNat]?

def hasSource (s : Store) (id : FileId) : Bool := (s.source? id).isSome

/-- Store a path unless it is there. -/
def addSource (s : Store) (text : String) : Store :=
  match s.sourceId? text with
  | some _ => s
  | none => { s with sources := s.sources ++ [text] }

def fileIds (s : Store) : List FileId :=
  (List.range s.sources.length).map fun i : Nat => ⟨(i : Int) + 1⟩

/-- The files of a part in ascending order. -/
def membersOf (s : Store) (part : PartId) : List FileId :=
  ((s.members.entries.filter fun e => decide (e.2 = part)).map Prod.fst).mergeSort FileId.le

/-!
# Dropping symbols
-/

/-- Drop the symbols that `doomed` picks, and with them their locations. -/
def dropSymbols (s : Store) (doomed : SymbolRow -> Bool) : Store :=
  let ids := (s.symbols.filter doomed).map SymbolRow.id
  { s with
    symbols := s.symbols.filter fun row => !doomed row
    locations := s.locations.filter fun l => !ids.contains l.symbol }

end Store
end SymbolIndex
