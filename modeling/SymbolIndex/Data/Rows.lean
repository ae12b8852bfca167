import SymbolIndex.Data.Form
import SymbolIndex.FileStatus
import SymbolIndex.Store.Query
import SymbolIndex.Task
import SymbolIndex.Text.Hex

/-!
# Rows

The values of the index as data: ids as numbers or texts, everything with several parts
as the list of its parts.
-/

namespace SymbolIndex

instance : OfData FileId where
  toData id := toData id.number
  ofData? d := d.asInt?.map FileId.mk
  ofData?_toData _ := rfl

instance : OfData SymbolId where
  toData id := toData id.number
  ofData? d := d.asInt?.map SymbolId.mk
  ofData?_toData _ := rfl

instance : OfData PartId where
  toData id := toData id.name
  ofData? d := d.asText?.map PartId.mk
  ofData?_toData _ := rfl

/-- A path that is no text is written with its bytes. -/
def pathData (p : Path) : Data :=
  match p.text? with
  | some s => .text s
  | none => .record [("hex", .text (Text.hex p.bytes))]

def pathOfData? : Data -> Option Path
  | .text s => some (.ofString s)
  | .record fields => (Data.field? "hex" fields).bind fun d => (d.asText?.bind Text.ofHex?).map Path.mk
  | _ => none

theorem pathOfData?_pathData (p : Path) : pathOfData? (pathData p) = some p := by
  cases h : p.text? with
  | some s =>
      have hb : Text.bytesOf s = p.bytes := Text.bytesOf_of_ofBytes? h
      simp [pathData, h, pathOfData?, Path.ofString, hb]
  | none =>
      simp [pathData, h, pathOfData?, Data.field?, Data.asText?, Text.ofHex?_hex]

instance : OfData Path where
  toData := pathData
  ofData? := pathOfData?
  ofData?_toData := pathOfData?_pathData

instance : ToData SymbolKind := ⟨fun kind => .text kind.text⟩

instance : ToData Role := ⟨fun role => .text role.text⟩

instance : OfData FileStatus where
  toData s := .list [toData s.size.toNat, toData s.modified.toInt]
  ofData?
    | .list [size, modified] => do
        pure ⟨UInt64.ofNat (← ofData? size), Int64.ofInt (← ofData? modified)⟩
    | _ => none
  ofData?_toData s := by simp [ofData?_toData]

instance : OfData Task where
  toData t := .list [toData t.file, toData t.part, toData t.arguments]
  ofData?
    | .list [file, part, arguments] => do
        pure ⟨← ofData? file, ← ofData? part, ← ofData? arguments⟩
    | _ => none
  ofData?_toData t := by simp [ofData?_toData]

/-!
# Results
-/

instance : ToData CollectedSymbol := ⟨fun s => .list [toData s.usr, toData s.kind, toData s.name]⟩

instance : ToData CollectedLocation :=
  ⟨fun l => .list [toData l.symbol, toData l.line, toData l.column, toData l.role]⟩

instance : ToData Results :=
  ⟨fun r => .record [("symbols", toData r.symbols), ("locations", toData r.locations)]⟩

/-!
# What the store holds
-/

instance : OfData StoredArguments where
  toData
    | .written arguments => toData arguments
    | .raw text => toData text
  ofData?
    | .text s => some (.raw s)
    | d => (ofData? d).map .written
  ofData?_toData
    | .written arguments => by
        have h : ofData? (toData arguments) = some arguments := ofData?_toData arguments
        simp only [toData] at h ⊢
        simp [h]
    | .raw _ => rfl

instance : OfData StatusRow where
  toData r := .list [toData r.part, toData r.status, toData r.digest]
  ofData?
    | .list [part, status, digest] => do
        pure (.write (← ofData? part) (← ofData? status) (← ofData? digest))
    | _ => none
  ofData?_toData r := by simp [ofData?_toData]

instance : OfData SymbolRow where
  toData r := .list [toData r.id, toData r.usr, toData r.name, toData r.kind, toData r.file, toData r.part]
  ofData?
    | .list [id, usr, name, kind, file, part] => do
        pure ⟨← ofData? id, ← ofData? usr, ← ofData? name, ← ofData? kind, ← ofData? file,
          ← ofData? part⟩
    | _ => none
  ofData?_toData r := by simp [ofData?_toData]

instance : OfData LocationRow where
  toData r := .list [toData r.symbol, toData r.file, toData r.line, toData r.column, toData r.role]
  ofData?
    | .list [symbol, file, line, column, role] => do
        pure ⟨← ofData? symbol, ← ofData? file, ← ofData? line, ← ofData? column, ← ofData? role⟩
    | _ => none
  ofData?_toData r := by simp [ofData?_toData]

instance : OfData Store where
  toData s := .list [toData s.sources, toData s.parts, toData s.members, toData s.statuses,
    toData s.symbols, toData s.locations, toData s.nextSymbol]
  ofData?
    | .list [sources, parts, members, statuses, symbols, locations, nextSymbol] => do
        pure ⟨← ofData? sources, ← ofData? parts, ← ofData? members, ← ofData? statuses,
          ← ofData? symbols, ← ofData? locations, ← ofData? nextSymbol⟩
    | _ => none
  ofData?_toData s := by simp [ofData?_toData]

/-!
# What queries give
-/

instance : ToData SymbolRecord :=
  ⟨fun s => .list [toData s.id, toData s.usr, toData s.kind, toData s.name, toData s.file, toData s.part]⟩

instance : ToData LocationRecord :=
  ⟨fun l => .list [toData l.symbol, toData l.file, toData l.line, toData l.column, toData l.role]⟩

instance : ToData IndexedFile :=
  ⟨fun f => .record [("file", toData f.file), ("part", toData f.part), ("status", toData f.status)]⟩

instance : ToData StoredPart :=
  ⟨fun p => .record [("id", toData p.id), ("arguments", toData p.arguments), ("files", toData p.files)]⟩

instance : ToData StoreCounts :=
  ⟨fun c => .record [("sources", toData c.sources), ("project_parts", toData c.parts),
    ("indexed_files", toData c.indexedFiles), ("symbols", toData c.symbols),
    ("locations", toData c.locations)]⟩

end SymbolIndex
