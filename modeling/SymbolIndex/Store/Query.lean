import SymbolIndex.Json.Reader
import SymbolIndex.Part.Record
import SymbolIndex.Store

/-!
# Queries of the store

What the index knows about parts, files, symbols and locations, in an order that the
query fixes.
-/

namespace SymbolIndex

/-- A part as stored, its files in ascending order. -/
structure StoredPart where
  id : PartId
  arguments : List String
  files : List FileId
deriving DecidableEq, Repr

structure IndexedFile where
  file : FileId
  part : PartId
  status : FileStatus
deriving DecidableEq, Repr

structure SymbolRecord where
  id : SymbolId
  usr : String
  kind : SymbolKind
  name : String
  file : FileId
  part : PartId
deriving DecidableEq, Repr

structure LocationRecord where
  symbol : SymbolId
  file : FileId
  line : UInt32
  column : UInt32
  role : Role
deriving DecidableEq, Repr

structure StoreCounts where
  sources : Nat
  parts : Nat
  indexedFiles : Nat
  symbols : Nat
  locations : Nat
deriving DecidableEq, Repr

namespace StoreCounts

/-- Each count with its heading. -/
def rows (c : StoreCounts) : List (String × Nat) :=
  [("Sources", c.sources), ("Project parts", c.parts), ("Indexed files", c.indexedFiles),
   ("Symbols", c.symbols), ("Locations", c.locations)]

def display (c : StoreCounts) : String :=
  "Database Statistics:\n"
    ++ String.join (c.rows.map fun row => "  " ++ row.1 ++ ": " ++ toString row.2 ++ "\n")

end StoreCounts

namespace StoredArguments

/-- The arguments, unless the stored text is no list of texts. -/
def read : StoredArguments -> Except Failure (List String)
  | written arguments => .ok arguments
  | raw text =>
      match (Json.read? text).bind Data.asTexts? with
      | some arguments => .ok arguments
      | none => .error .serialization

end StoredArguments

namespace Store

def fetchPart (s : Store) (part : PartId) : Except Failure (Option StoredPart) :=
  match s.parts.get? part with
  | none => .ok none
  | some stored => stored.read.map fun arguments => some ⟨part, arguments, s.membersOf part⟩

/-- The ids of the stored parts, by the order of their names. -/
def partIds (s : Store) : List PartId := s.parts.keys.mergeSort PartId.le

def indexedFile? (s : Store) (file : FileId) : Option IndexedFile :=
  (s.statuses.get? file).map fun row => ⟨file, row.part, row.status⟩

def readSymbol (row : SymbolRow) : Except Failure SymbolRecord :=
  match SymbolKind.ofText? row.kind with
  | some kind => .ok ⟨row.id, row.usr, kind, row.name, row.file, row.part⟩
  | none => .error (.storage (.unknownKind row.kind))

def readLocation (row : LocationRow) : Except Failure LocationRecord :=
  match Role.ofText? row.role with
  | some role => .ok ⟨row.symbol, row.file, row.line, row.column, role⟩
  | none => .error (.storage (.unknownRole row.role))

/-- The symbols of a file in the order of their numbers. -/
def symbolsIn (s : Store) (file : FileId) : Except Failure (List SymbolRecord) :=
  (s.symbols.filter fun row => decide (row.file = file)).mapM readSymbol

def byFile (a b : SymbolRow) : Bool := a.file.le b.file

/-- The symbols of a name, file by file. -/
def symbolsNamed (s : Store) (name : String) : Except Failure (List SymbolRecord) :=
  ((s.symbols.filter fun row => row.name == name).mergeSort byFile).mapM readSymbol

def symbol? (s : Store) (id : SymbolId) : Except Failure (Option SymbolRecord) :=
  match s.symbols.find? fun row => decide (row.id = id) with
  | some row => (readSymbol row).map some
  | none => .ok none

/-- Locations stand by file, line and column; those that agree stay in the order in which they came. -/
def locationLe (a b : LocationRow) : Bool :=
  if a.file ≠ b.file then a.file.le b.file
  else if a.line ≠ b.line then decide (a.line ≤ b.line)
  else decide (a.column ≤ b.column)

def locationsOf (s : Store) (id : SymbolId) : Except Failure (List LocationRecord) :=
  ((s.locations.filter fun l => decide (l.symbol = id)).mergeSort locationLe).mapM readLocation

def counts (s : Store) : StoreCounts :=
  ⟨s.sources.length, s.parts.size, s.statuses.size, s.symbols.length, s.locations.length⟩

end Store
end SymbolIndex
