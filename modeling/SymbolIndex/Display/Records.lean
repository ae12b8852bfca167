import SymbolIndex.Data
import SymbolIndex.Display.Grid
import SymbolIndex.Store.Query

/-!
# Records as grids and as data

How counts, symbols and locations are shown: as a grid for people, as data for
programs.
-/

namespace SymbolIndex

/-- The grid of some figures with their headings. -/
def metricGrid (rows : List (String × String)) : Grid :=
  ⟨["Metric", "Value"], rows.map fun row => [row.1, row.2]⟩

/-- Figures as text; no figures give no text. -/
def metricTable (rows : List (String × String)) : String :=
  if rows.isEmpty then "" else (metricGrid rows).render

namespace SymbolRecord

def cells (s : SymbolRecord) : List String :=
  [s.id.display, s.kind.text, s.name, s.usr, s.part.name]

/-- A symbol with its parts by name. -/
def asRecord (s : SymbolRecord) : Data :=
  .record [("id", .integer s.id.number), ("usr", .text s.usr), ("kind", .text s.kind.text),
    ("name", .text s.name), ("file", .integer s.file.number), ("project_part", .text s.part.name)]

def grid (symbols : List SymbolRecord) : Grid :=
  ⟨["Id", "Kind", "Name", "Key", "Part"], symbols.map cells⟩

end SymbolRecord

namespace LocationRecord

def cells (l : LocationRecord) (path : Path) : List String :=
  [l.role.text, path.display, toString l.line.toNat, toString l.column.toNat]

/-- A location with its parts by name. -/
def asRecord (l : LocationRecord) : Data :=
  .record [("symbol_id", .integer l.symbol.number), ("file", .integer l.file.number),
    ("line", .integer l.line.toNat), ("column", .integer l.column.toNat), ("role", .text l.role.text)]

/-- A location with the path of its file in the place of its number. -/
def placedData (l : LocationRecord) (path : Path) : Data :=
  .record [("file", .text path.display), ("line", .integer l.line.toNat),
    ("column", .integer l.column.toNat), ("role", .text l.role.text)]

def grid (locations : List (LocationRecord × Path)) : Grid :=
  ⟨["Role", "File", "Line", "Column"], locations.map fun l => l.1.cells l.2⟩

end LocationRecord
end SymbolIndex
